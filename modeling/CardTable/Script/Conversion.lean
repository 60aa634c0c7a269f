import CardTable.Json.Printer
import CardTable.Text.Digits

set_option autoImplicit false

/-!
# Conversions between values in scripts

A script works on values and on `undefined`, which is written `none` here. A number in a script is
a double; it is kept as a whole number where it is one and doubles near it are one apart, and a
number beyond the finite doubles is null.

## Main definitions

* `CardTable.Script.numberValue` — the value of a double.
* `CardTable.Script.negate?` — the value of a number behind a minus sign, if it fits.
* `CardTable.Script.display` — the text of a value inside a template.
* `CardTable.Script.propertyKey` — the name of the property that a computed key selects.
* `CardTable.Script.sortKeys` — fields in the order in which a script lists them.

## Main results

* `CardTable.Script.negate?_eq_none_iff` — the one number that has no negative.
* `CardTable.Script.sortKeys_perm` — ordering fields only moves them.
-/

namespace CardTable.Script

open CardTable.Text (digitsValue)

/-! ## Numbers -/

/-- The greatest whole number, `2 ^ 53 - 1`, up to which all whole numbers are doubles. -/
abbrev maxSafe : Nat := 9007199254740991

/-- The value of a double, `none` standing for one beyond the finite doubles. -/
def numberValue : Option Double → Value
  | none => .null
  | some x =>
    match x.toInt? with
    | some n => if n.natAbs ≤ maxSafe then .num (.ofInt n) else .num (.double x)
    | none => .num (.double x)

/-- The value of a number behind a minus sign. Whole numbers of a signed 64-bit word stay in the
word, in which the negative of the least one does not fit. -/
def negate? (n : Number) : Option Value :=
  match n.signed? with
  | some i => if i = -9223372036854775808 then none else some (.num (.ofInt (-i)))
  | none => some (numberValue (some n.toDouble.neg))

/-- All other numbers of a signed word are negated in the word. -/
theorem negate?_of_signed {n : Number} {i : Int} (h : n.signed? = some i)
    (hi : i ≠ -9223372036854775808) : negate? n = some (.num (.ofInt (-i))) := by
  rw [negate?, h]
  exact if_neg hi

/-- Only the least number of a signed word has no negative. -/
theorem negate?_eq_none_iff {n : Number} :
    negate? n = none ↔ n.signed? = some (-9223372036854775808) := by
  unfold negate?
  cases n.signed? <;> simp

/-! ## Texts -/

/-- The text of a number. -/
def numberDisplay (n : Number) : List Char :=
  match n.signed? with
  | some i => Json.intText i
  | none => n.toDouble.render .plain

mutual

/-- The text of an item inside the text of its list: null leaves its place empty. -/
def itemDisplay (v : Value) : List Char :=
  match v with
  | .null => []
  | .bool true => "true".toList
  | .bool false => "false".toList
  | .num n => numberDisplay n
  | .str s => s.toList
  | .list [] => []
  | .list (item :: rest) => itemDisplay item ++ moreItemsDisplay rest
  | .mapping _ => "[object Object]".toList

/-- The texts of the items behind the first one, each behind a comma. -/
def moreItemsDisplay (items : List Value) : List Char :=
  match items with
  | [] => []
  | item :: rest => ',' :: (itemDisplay item ++ moreItemsDisplay rest)

end

/-- The text of a value inside a template. -/
def valueDisplay : Value → List Char
  | .null => "null".toList
  | v => itemDisplay v

/-- The text of a value or of `undefined` inside a template. -/
def display : Option Value → String
  | none => "undefined"
  | some v => String.ofList (valueDisplay v)

/-- The name of the property that a computed key selects: its text inside a template. -/
def propertyKey (key : Option Value) : String :=
  display key

/-! ## Properties -/

/-- The number that a property name writes in decimal digits, a plus sign allowed in front. -/
def positionOf? (key : String) : Option Nat :=
  let digits := match key.toList with
    | '+' :: rest => rest
    | cs => cs
  if digits ≠ [] ∧ digits.all Char.isDigit then some (digitsValue digits) else none

/-- The array index that a property name is: a number below `2 ^ 32 - 1` in its shortest decimal
form. -/
def indexKey? (key : String) : Option Nat :=
  let digits := key.toList
  let n := digitsValue digits
  if digits ≠ [] ∧ digits.all Char.isDigit ∧ (digits.head? = some '0' → digits = ['0'])
      ∧ n < 4294967295 then
    some n
  else none

/-- Whether a property name is an array index. -/
def isIndexKey (key : String) : Bool :=
  (indexKey? key).isSome

/-- Fields in the order in which a script lists them: array indices ascending, and then all other
fields in their own order. -/
def sortKeys {α : Type} (fields : Fields α) : Fields α :=
  let indexed := fields.filter fun field => isIndexKey field.1
  let named := fields.filter fun field => !isIndexKey field.1
  indexed.mergeSort (fun a b => (indexKey? a.1).getD 0 ≤ (indexKey? b.1).getD 0) ++ named

/-- Ordering fields only moves them. -/
theorem sortKeys_perm {α : Type} (fields : Fields α) : (sortKeys fields).Perm fields := by
  unfold sortKeys
  exact ((List.mergeSort_perm _ _).append_right _).trans (List.filter_append_perm _ _)

end CardTable.Script
