set_option autoImplicit false

/-!
# Membership in a table of code point ranges

Properties of characters beyond ASCII are tables of closed ranges. A table lists its ranges in
ascending order, from U+0080 up; the ASCII part of each property is a short test of its own beside
the table.

## Main definitions

* `CardTable.Text.inRanges` — membership of a character in a table.
-/

namespace CardTable.Text

/-- Whether the code point of `c` lies in one of the closed ranges of `table`. -/
def inRanges (table : List (Nat × Nat)) (c : Char) : Bool :=
  table.any fun range => range.1 ≤ c.toNat && c.toNat ≤ range.2

/-- A character is in a table exactly when some range of it holds its code point. -/
theorem inRanges_iff {table : List (Nat × Nat)} {c : Char} :
    inRanges table c = true ↔ ∃ range ∈ table, range.1 ≤ c.toNat ∧ c.toNat ≤ range.2 := by
  simp [inRanges]

/-- What holds of all characters of a list is decided by going through the list, and not through all
characters there are. -/
instance (priority := high) decidableForallMemChar {p : Char → Prop} [DecidablePred p]
    (cs : List Char) : Decidable (∀ c ∈ cs, p c) :=
  List.decidableBAll p cs

end CardTable.Text
