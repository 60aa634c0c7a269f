import CardTable.Proofs.Script.Cursor.Tokens

set_option autoImplicit false

/-!
# Faults of the lexer

The lexer has its own ways to fail: comments, literals and stretches that do not end, and literals
that are not well-formed. It never reports an unexpected token; only the readers do.

## Main definitions

* `CardTable.Script.Problem.isUnexpected` — the breach of an unexpected token.
* `CardTable.Script.IsLexical` — no unexpected token is reported.

## Main results

* `CardTable.Script.isLexical_found` — templates and their stretches.
* `CardTable.Script.isLexical_lexemes` — the whole lexer.
-/

namespace CardTable.Script

/-- Whether a breach is that of an unexpected token. -/
def Problem.isUnexpected : Problem → Bool
  | .unexpected _ => true
  | _ => false

/-- The failure, if there is one, is not that of an unexpected token. -/
def IsLexical {α : Type} (r : Except Fault α) : Prop :=
  ∀ f, r = .error f → f.problem.isUnexpected = false

section Lexical

variable {α β : Type} {r : Except Fault α}

/-- A result is no fault. -/
lemma isLexical_ok (a : α) : IsLexical (.ok a : Except Fault α) :=
  nofun

/-- A fault for which no token is unexpected. -/
lemma isLexical_error {f : Fault} (h : f.problem.isUnexpected = false) :
    IsLexical (.error f : Except Fault α) := by
  rintro _ ⟨⟩
  exact h

/-- What is done with a result does not change the faults. -/
lemma IsLexical.map (h : IsLexical r) (f : α → β) : IsLexical (r.map f) := by
  cases r with
  | ok a => exact isLexical_ok _
  | error e => exact isLexical_error (h e rfl)

/-- Strings have faults of the lexer only. -/
lemma isLexical_stringLiteral (g : Glyph) (cs : List Glyph) :
    IsLexical (stringLiteral g cs) := by
  unfold stringLiteral
  split
  · exact isLexical_error rfl
  · split
    · exact isLexical_error rfl
    · exact isLexical_ok _

/-- Pieces of templates have faults of the lexer only. -/
lemma isLexical_cookChunk (start : Nat) (chunk : List Char) :
    IsLexical (cookChunk start chunk) := by
  unfold cookChunk
  split
  · exact isLexical_error rfl
  · exact isLexical_ok _

/-- Numerals have faults of the lexer only. -/
lemma isUnexpected_of_numeral {cs : List Glyph} {problem : Problem}
    (h : numeral cs = .error problem) : problem.isUnexpected = false := by
  unfold numeral radixNumeral decimalNumeral at h
  dsimp only at h
  repeat' split at h
  all_goals cases h <;> rfl

/-- Gaps between tokens have faults of the lexer only. -/
lemma isLexical_skipGap (cs : List Glyph) : IsLexical (skipGap cs) := by
  fun_induction skipGap cs with
  | case1 => exact isLexical_ok _
  | case2 _ _ _ ih => exact ih.map _
  | case3 _ _ _ _ _ ih => exact ih
  | case4 => exact isLexical_error rfl
  | case5 _ _ _ _ _ _ _ _ ih => exact ih.map _
  | case6 => exact isLexical_ok _
  | case7 => exact isLexical_ok _

open Cursor (found found_substitution found_template)

/-- What is found is taken off the text. -/
lemma length_of_found {cs behind : List Glyph} {r : Except Fault (Found α cs)} {a : α}
    (h : found r = .ok (a, behind)) : behind.length < cs.length := by
  cases r with
  | error f => cases h
  | ok r =>
    obtain ⟨⟨⟩⟩ := h
    exact r.shorter

/-- The lexer of templates and the search for their stretches report nothing else either.

**Proof sketch.** Strong induction on the length of the text, for templates and their stretches
together, as they call each other behind what they have found. -/
theorem isLexical_found (cs : List Glyph) :
    (∀ start read, IsLexical (found (template start read cs))) ∧
      ∀ start depth, IsLexical (found (substitution start depth cs)) := by
  induction hn : cs.length using Nat.strongRecOn generalizing cs with
  | _ n ih =>
  subst hn
  cases cs with
  | nil =>
    constructor
    · intro start read
      rw [template]
      exact isLexical_error rfl
    · intro start depth
      rw [substitution]
      exact isLexical_error rfl
  | cons g rest =>
  have ihrest : ∀ left : List Glyph, left.length ≤ rest.length →
      (∀ start read, IsLexical (found (template start read left))) ∧
        ∀ start depth, IsLexical (found (substitution start depth left)) :=
    fun left h => ih left.length (Nat.lt_succ_of_le h) left rfl
  constructor
  · intro start read
    rw [found_template]
    split
    · cases rest with
      | nil => exact isLexical_error rfl
      | cons e rest => exact (ihrest rest (Nat.le_succ _)).1 _ _
    split
    · exact (isLexical_cookChunk _ _).map _
    split
    · cases hchunk : cookChunk start read.reverse with
      | error f => exact isLexical_error (isLexical_cookChunk _ _ f hchunk)
      | ok chunk =>
        dsimp only
        have htail : rest.tail.length ≤ rest.length := length_tail_le rest
        cases hstretch : found (substitution start 0 rest.tail) with
        | error f => exact isLexical_error ((ihrest _ htail).2 _ _ f hstretch)
        | ok closed =>
          have hleft : closed.2.length ≤ rest.length :=
            Nat.le_trans (Nat.le_of_lt (length_of_found hstretch)) htail
          exact ((ihrest _ hleft).1 _ _).map _
    · exact (ihrest rest (Nat.le_refl _)).1 _ _
  · intro start depth
    rw [found_substitution]
    split
    · cases depth with
      | zero => exact isLexical_ok _
      | succ depth => exact (ihrest rest (Nat.le_refl _)).2 _ _
    split
    · cases hliteral : stringLiteral g rest with
      | error f => exact isLexical_error (isLexical_stringLiteral _ _ f hliteral)
      | ok literal => exact (ihrest _ (Nat.le_of_lt literal.shorter)).2 _ _
    split
    · cases hliteral : found (template g.offset [] rest) with
      | error f => exact isLexical_error ((ihrest rest (Nat.le_refl _)).1 _ _ f hliteral)
      | ok literal =>
        exact (ihrest _ (Nat.le_of_lt (length_of_found hliteral))).2 _ _
    · exact (ihrest rest (Nat.le_refl _)).2 _ _

/-- Tokens have faults of the lexer only. -/
lemma isLexical_token (g : Glyph) (rest : List Glyph) : IsLexical (token g rest) := by
  unfold token
  split
  · exact isLexical_ok _
  split
  · cases hnumeral : numeral (g :: rest) with
    | ok x => exact isLexical_ok _
    | error problem => exact isLexical_error (isUnexpected_of_numeral hnumeral)
  split
  · exact (isLexical_stringLiteral g rest).map _
  split
  · have htemplate := (isLexical_found rest).1 g.offset []
    cases ht : template g.offset [] rest with
    | ok literal => exact isLexical_ok _
    | error f => exact isLexical_error (htemplate f (congrArg found ht))
  split
  · exact isLexical_ok _
  · split <;> exact isLexical_ok _
  · exact isLexical_ok _

/-- **The lexer** does not report unexpected tokens. -/
theorem isLexical_lexemes (cs : List Glyph) : IsLexical (lexemes cs) := by
  fun_induction lexemes cs with
  | case1 cs f hgap => exact isLexical_error (isLexical_skipGap cs f hgap)
  | case2 => exact isLexical_ok _
  | case3 cs broken g rest hgap f htoken => exact isLexical_error (isLexical_token g rest f htoken)
  | case4 cs broken g rest hgap t behind htoken ih => exact ih.map _

end Lexical

end CardTable.Script
