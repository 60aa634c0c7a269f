set_option autoImplicit false

/-!
# Decimal digits

Digits are the ASCII ones throughout.

## Main definitions

* `CardTable.Text.digitsValue` — the whole number that decimal digits write.

## Main results

* `CardTable.Text.digitsValue_concat` — a further digit multiplies by ten and adds its value.
-/

namespace CardTable.Text

/-- The value of a decimal digit. -/
def digitValue (c : Char) : Nat :=
  c.toNat - '0'.toNat

/-- The whole number written by decimal digits. -/
def digitsValue (digits : List Char) : Nat :=
  digits.foldl (fun acc c => acc * 10 + digitValue c) 0

/-- No digits write zero. -/
@[simp] theorem digitsValue_nil : digitsValue [] = 0 := rfl

/-- A further digit multiplies by ten and adds its value. -/
theorem digitsValue_concat (digits : List Char) (c : Char) :
    digitsValue (digits ++ [c]) = digitsValue digits * 10 + digitValue c := by
  simp [digitsValue]

end CardTable.Text
