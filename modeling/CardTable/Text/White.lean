import CardTable.Text.Ranges

set_option autoImplicit false

/-!
# White space

The Unicode property *White_Space*, and the removal of white space at both ends of a text.

## Main definitions

* `CardTable.Text.isWhite` — the property as a test.
* `CardTable.Text.trim` — a text without the white space around it.

## Main results

* `CardTable.Text.span_append` — a stretch of characters of one sort, up to one of another.
-/

namespace CardTable.Text

/-- The white space code points from U+0080 up. -/
def whiteRanges : List (Nat × Nat) := [
  (0x85, 0x85), (0xa0, 0xa0), (0x1680, 0x1680), (0x2000, 0x200a), (0x2028, 0x2029),
  (0x202f, 0x202f), (0x205f, 0x205f), (0x3000, 0x3000)]

/-- Whether `c` has the property White_Space. -/
def isWhite (c : Char) : Bool :=
  if c.toNat < 0x80 then c == ' ' || (9 ≤ c.toNat && c.toNat ≤ 13) else inRanges whiteRanges c

/-- The characters `cs` without white space at their beginning and end. -/
def trimList (cs : List Char) : List Char :=
  ((cs.dropWhile isWhite).reverse.dropWhile isWhite).reverse

/-- The text `s` without white space at its beginning and end. -/
def trim (s : String) : String :=
  String.ofList (trimList s.toList)

/-- A stretch of characters that satisfy `p`, up to one that does not. -/
theorem span_append {p : Char → Bool} {cs behind : List Char} (hcs : ∀ c ∈ cs, p c = true)
    (hbehind : behind.head?.any p = false) :
    (cs ++ behind).takeWhile p = cs ∧ (cs ++ behind).dropWhile p = behind := by
  rw [List.takeWhile_append_of_pos hcs, List.dropWhile_append_of_pos hcs]
  cases behind with
  | nil => simp
  | cons c behind =>
    have hc : ¬ p c = true := by simpa using hbehind
    rw [List.takeWhile_cons_of_neg hc, List.dropWhile_cons_of_neg hc, List.append_nil]
    exact ⟨rfl, rfl⟩

/-- Dropping the white space in front leaves nothing exactly of a text that is white throughout. -/
theorem dropWhile_isWhite_eq_nil_iff {cs : List Char} :
    cs.dropWhile isWhite = [] ↔ ∀ c ∈ cs, isWhite c = true := by
  induction cs with
  | nil => simp
  | cons c cs ih => by_cases h : isWhite c <;> simp [h, ih]

end CardTable.Text
