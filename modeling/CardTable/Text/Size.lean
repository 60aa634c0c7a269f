set_option autoImplicit false

/-!
# Sizes of texts

A text has a size in bytes, as UTF-8 encodes it, and a size in UTF-16 code units.

## Main definitions

* `CardTable.Text.byteCount` — the number of bytes.
* `CardTable.Text.unitCount` — the number of UTF-16 code units.

## Main results

* `CardTable.Text.byteCount_append` — the bytes of texts one after the other.
-/

namespace CardTable.Text

/-- The number of bytes that a text takes in UTF-8. -/
def byteCount : List Char → Nat
  | [] => 0
  | c :: rest => c.utf8Size + byteCount rest

/-- The number of UTF-16 code units that a text takes. -/
def unitCount : List Char → Nat
  | [] => 0
  | c :: rest => (if c.toNat < 0x10000 then 1 else 2) + unitCount rest

/-- The bytes of texts one after the other. -/
theorem byteCount_append (cs ds : List Char) :
    byteCount (cs ++ ds) = byteCount cs + byteCount ds := by
  induction cs with
  | nil => simp [byteCount]
  | cons c rest ih => simp only [List.cons_append, byteCount, ih, Nat.add_assoc]

end CardTable.Text
