import CardTable.Number.Double
import CardTable.Value.Fields

set_option autoImplicit false

/-!
# Values

A card field, an evaluated module and a parsed JSON text are values: null, Booleans, numbers,
texts, lists and mappings. A number is a whole number of 64 bits, signed or unsigned, or a finite
double; which of the two it is belongs to the value.

## Main definitions

* `CardTable.Number` — whole numbers in range, and doubles.
* `CardTable.Value` — values; a mapping keeps its fields in insertion order.
* `CardTable.Value.Kind` — the sort of a value, with whole numbers and doubles told apart.

## Main results

* `CardTable.Value.induction` — induction through lists and mappings.
-/

namespace CardTable

/-- The whole numbers that a signed or an unsigned 64-bit word holds. -/
abbrev Wide (n : Int) : Prop :=
  -9223372036854775808 ≤ n ∧ n < 18446744073709551616

/-- The whole numbers that a signed 64-bit word holds. -/
abbrev Signed (n : Int) : Prop :=
  -9223372036854775808 ≤ n ∧ n < 9223372036854775808

/-- A number: a whole number of 64 bits, or a finite double. -/
inductive Number where
  /-- A whole number in the range of a signed or an unsigned 64-bit word. -/
  | whole (n : Int) (wide : Wide n)
  /-- A finite double. -/
  | double (x : Double)
deriving DecidableEq

namespace Number

/-- The number `n`: whole if it is in range, otherwise the double nearest to it. -/
def ofInt (n : Int) : Number :=
  if h : Wide n then .whole n h else .double ((Double.ofInt? n).getD .zero)

/-- The double nearest to the number. -/
def toDouble : Number → Double
  | .whole n _ => (Double.ofInt? n).getD .zero
  | .double x => x

/-- The number as a whole number of a signed 64-bit word, if it is one. -/
def signed? : Number → Option Int
  | .whole n _ => if Signed n then some n else none
  | .double _ => none

end Number

/-- A value. -/
inductive Value where
  /-- The null value. -/
  | null
  /-- A Boolean. -/
  | bool (b : Bool)
  /-- A number. -/
  | num (n : Number)
  /-- A text. -/
  | str (s : String)
  /-- A list of values. -/
  | list (items : List Value)
  /-- A mapping from names to values. -/
  | mapping (fields : List (String × Value))

namespace Value

/-- Induction on a value, through the items of its lists and the fields of its mappings. -/
theorem induction {motive : Value → Prop} (null : motive .null) (bool : ∀ b, motive (.bool b))
    (num : ∀ n, motive (.num n)) (str : ∀ s, motive (.str s))
    (list : ∀ items, (∀ item ∈ items, motive item) → motive (.list items))
    (mapping : ∀ fields, (∀ field ∈ fields, motive field.2) → motive (.mapping fields))
    (v : Value) :
    motive v :=
  @Value.rec motive (fun items => ∀ item ∈ items, motive item)
    (fun fields => ∀ field ∈ fields, motive field.2) (fun field => motive field.2)
    null bool num str list mapping (List.forall_mem_nil _)
    (fun _ _ hitem hrest => List.forall_mem_cons.2 ⟨hitem, hrest⟩) (List.forall_mem_nil _)
    (fun _ _ hfield hrest => List.forall_mem_cons.2 ⟨hfield, hrest⟩) (fun _ _ hvalue => hvalue) v

/-- The sort of a value. -/
inductive Kind where
  | null | boolean | integer | float | string | list | mapping
deriving DecidableEq

/-- The sort of `v`. -/
def kind : Value → Kind
  | .null => .null
  | .bool _ => .boolean
  | .num (.whole _ _) => .integer
  | .num (.double _) => .float
  | .str _ => .string
  | .list _ => .list
  | .mapping _ => .mapping

/-- The text that `v` is, if it is one. -/
def text? : Value → Option String
  | .str s => some s
  | _ => none

/-- The fields of `v`, if it is a mapping. -/
def fields? : Value → Option (Fields Value)
  | .mapping fields => some fields
  | _ => none

/-- The field `key` of `v`, if `v` is a mapping that has it. -/
def field? (v : Value) (key : String) : Option Value :=
  v.fields?.bind (Fields.get? · key)

end Value

end CardTable
