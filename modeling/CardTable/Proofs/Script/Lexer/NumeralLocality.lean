import CardTable.Proofs.Script.Lexer.Locality

set_option autoImplicit false

/-!
# Numeric literals are cut off locally

Where a numeric literal ends is seen from the character behind it.

## Main definitions

* `CardTable.Script.announcedRadix?` — the base that a literal announces.

## Main results

* `CardTable.Script.numeral_eq` — a literal, by the base that it announces.
* `CardTable.Script.cutsOff_numeral` — a numeric literal is cut off locally.
-/

namespace CardTable.Script

/-! ## Numbers -/

section Numbers

variable {i j : Nat}

/-- Digits are cut off. -/
lemma cutsOff_takeDigits {p : Char → Bool} (hp : ∀ c, isApart c = true → p c = false)
    (cs : List Glyph) : CutsOff i j cs (takeDigits p cs).2 fun cs' behind' =>
      takeDigits p cs' = ((takeDigits p cs).1, behind') := by
  refine (CutsOff.dropWhile_of_apart hp cs).mono ?_
  rintro cs' behind' - - ⟨hdrop, htake⟩
  rw [takeDigits, hdrop, htake]
  rfl

/-- No character that only ends a token is a digit. -/
lemma isDigit_of_isApart (c : Char) (h : isApart c = true) : c.isDigit = false := by
  simp only [isApart, decide_eq_true_eq, List.mem_cons, List.not_mem_nil, or_false] at h
  rcases h with rfl | rfl | rfl | rfl | rfl | rfl <;> decide

/-- No character that only ends a token stands in a number. -/
lemma isDigitOrLine_of_isApart (c : Char) (h : isApart c = true) : isDigitOrLine c = false := by
  simp only [isApart, decide_eq_true_eq, List.mem_cons, List.not_mem_nil, or_false] at h
  rcases h with rfl | rfl | rfl | rfl | rfl | rfl <;> decide

/-- No character that only ends a token stands in a word. -/
lemma continuesWord_of_isApart (c : Char) (h : isApart c = true) : continuesWord c = false := by
  simp only [isApart, decide_eq_true_eq, List.mem_cons, List.not_mem_nil, or_false] at h
  rcases h with rfl | rfl | rfl | rfl | rfl | rfl <;> decide

/-- No word begins with a character that only ends a token. -/
lemma startsWord_of_isApart (c : Char) (h : isApart c = true) : startsWord c = false := by
  simp only [isApart, decide_eq_true_eq, List.mem_cons, List.not_mem_nil, or_false] at h
  rcases h with rfl | rfl | rfl | rfl | rfl | rfl <;> decide

/-- A fraction is cut off. -/
lemma cutsOff_fractionPart (cs : List Glyph) :
    CutsOff i j cs (fractionPart cs).2 fun cs' behind' =>
      fractionPart cs' = ((fractionPart cs).1, behind') := by
  by_cases hpoint : cs.head?.map Glyph.char = some '.'
  · obtain ⟨o, rest, rfl⟩ := head?_eq_some_iff.1 hpoint
    refine ((cutsOff_takeDigits isDigitOrLine_of_isApart rest).cons ⟨o, '.'⟩).mono ?_
    rintro _ behind' - - ⟨⟨o', _⟩, rest', rfl, ⟨rfl, -⟩, -, hdigits⟩
    exact hdigits
  · have hnone : ∀ ds : List Glyph, ds.head?.map Glyph.char ≠ some '.' →
        fractionPart ds = ([], ds) := by
      intro ds hds
      unfold fractionPart
      split
      · exact absurd rfl hds
      · rfl
    rw [hnone cs hpoint]
    refine (CutsOff.refl cs).mono ?_
    rintro _ cs' - hahead ⟨rfl, -⟩
    exact hnone _ (by rwa [Ne, ← head?_eq_some_iff_of_ahead hahead (by decide)])

/-- The sign of an exponent is cut off. -/
lemma cutsOff_exponentSign (cs : List Glyph) :
    CutsOff i j cs (exponentSign cs).2 fun cs' behind' =>
      exponentSign cs' = ((exponentSign cs).1, behind') := by
  by_cases hplus : cs.head?.map Glyph.char = some '+'
  · obtain ⟨o, rest, rfl⟩ := head?_eq_some_iff.1 hplus
    refine ((CutsOff.refl rest).cons ⟨o, '+'⟩).mono ?_
    rintro _ _ - - ⟨⟨o', _⟩, rest', rfl, ⟨rfl, -⟩, -, rfl, -⟩
    rfl
  by_cases hminus : cs.head?.map Glyph.char = some '-'
  · obtain ⟨o, rest, rfl⟩ := head?_eq_some_iff.1 hminus
    refine ((CutsOff.refl rest).cons ⟨o, '-'⟩).mono ?_
    rintro _ _ - - ⟨⟨o', _⟩, rest', rfl, ⟨rfl, -⟩, -, rfl, -⟩
    rfl
  have hnone : ∀ ds : List Glyph, ds.head?.map Glyph.char ≠ some '+' →
      ds.head?.map Glyph.char ≠ some '-' → exponentSign ds = (false, ds) := by
    intro ds h h'
    unfold exponentSign
    split
    · exact absurd rfl h
    · exact absurd rfl h'
    · rfl
  rw [hnone cs hplus hminus]
  refine (CutsOff.refl cs).mono ?_
  rintro _ cs' - hahead ⟨rfl, -⟩
  refine hnone _ ?_ ?_
  · rwa [Ne, ← head?_eq_some_iff_of_ahead hahead (by decide)]
  · rwa [Ne, ← head?_eq_some_iff_of_ahead hahead (by decide)]

/-- Whether `c` begins an exponent. -/
def startsExponent (c : Char) : Bool :=
  c == 'e' || c == 'E'

/-- An exponent is cut off. -/
lemma cutsOff_exponentPart (cs : List Glyph) :
    CutsOff i j cs (exponentPart cs).2 fun cs' behind' =>
      exponentPart cs' = ((exponentPart cs).1, behind') := by
  have hnone : ∀ ds : List Glyph, ds.head?.any (fun g => startsExponent g.char) = false →
      exponentPart ds = (some 0, ds) := by
    intro ds hds
    cases ds with
    | nil => rfl
    | cons g rest =>
      have hg : ¬ (g.char = 'e' ∨ g.char = 'E') := by simpa [startsExponent] using hds
      rw [exponentPart]
      exact if_neg hg
  cases hfirst : cs.head?.any fun g => startsExponent g.char with
  | false =>
    rw [hnone cs hfirst]
    refine (CutsOff.refl cs).mono ?_
    rintro _ cs' - hahead ⟨rfl, -⟩
    refine hnone _ ?_
    rw [← any_head?_of_ahead hahead, hfirst]
    intro c hc
    simp only [isApart, decide_eq_true_eq, List.mem_cons, List.not_mem_nil, or_false] at hc
    rcases hc with rfl | rfl | rfl | rfl | rfl | rfl <;> decide
  | true =>
    cases cs with
    | nil => cases hfirst
    | cons g rest =>
    have hg : g.char = 'e' ∨ g.char = 'E' := by simpa [startsExponent] using hfirst
    have hdigits := CutsOff.dropWhile_of_apart (i := i) (j := j) (p := fun c => c.isDigit)
      isDigit_of_isApart (exponentSign rest).2
    rw [exponentPart, if_pos hg]
    refine (((cutsOff_exponentSign rest).trans hdigits).cons g).mono ?_
    rintro _ behind' - - ⟨g', rest', rfl, hg', -, left', hsign, hdrop, htake⟩
    rw [exponentPart, hg'.char, if_pos hg, hsign]
    dsimp only
    rw [hdrop, htake]

/-- A decimal literal is cut off. -/
lemma cutsOff_decimalNumeral {cs behind : List Glyph} {x : Option Double}
    (h : decimalNumeral cs = .ok (x, behind)) :
    CutsOff i j cs behind fun cs' behind' => decimalNumeral cs' = .ok (x, behind') := by
  have hparts := (cutsOff_takeDigits (i := i) (j := j) isDigitOrLine_of_isApart cs).trans
    ((cutsOff_fractionPart _).trans (cutsOff_exponentPart _))
  obtain rfl : (exponentPart (fractionPart (takeDigits isDigitOrLine cs).2).2).2 = behind := by
    simp only [decimalNumeral] at h
    split at h
    · cases h
    split at h
    · cases h
    split at h
    · cases h
    split at h
    · cases h
    · exact (Prod.mk.inj (Except.ok.inj h)).2
  refine hparts.mono ?_
  rintro cs' behind' - hahead ⟨_, hwhole, _, hfraction, hexponent⟩
  have hbig := head?_eq_some_iff_of_ahead hahead (c := 'n') (by decide)
  have hword := any_head?_of_ahead hahead (p := startsWord) startsWord_of_isApart
  have hany : ∀ ds : List Glyph,
      (ds.head?.map Glyph.char).any startsWord = ds.head?.any fun g => startsWord g.char := by
    intro ds
    cases ds <;> rfl
  simp only [decimalNumeral, hany] at h ⊢
  simp only [hwhole, hfraction, hexponent, ← hbig, ← hword]
  split at h
  · cases h
  next hnot =>
  split at h
  · cases h
  next hnoWord =>
  rw [if_neg hnot, if_neg hnoWord]
  split at h
  · cases h
  next hsome =>
  split at h
  · cases h
  next hdigits =>
  simp only [Except.ok.injEq, Prod.mk.injEq, and_true] at h
  rw [if_neg hdigits, h]

/-- The base that the first two characters of a literal announce. -/
def announcedRadix? (cs : List Glyph) : Option Nat :=
  match ahead cs with
  | ['0', letter] => radixOf? letter
  | _ => none

/-- A base is announced by the letter behind a zero. -/
lemma announcedRadix?_zero (o : Nat) (letter : Glyph) (rest : List Glyph) :
    announcedRadix? (⟨o, '0'⟩ :: letter :: rest) = radixOf? letter.char := by
  have hzero : isApart '0' = false := by decide
  have hnone : ∀ c, isApart c = true → radixOf? c = none := by
    intro c hc
    simp only [isApart, decide_eq_true_eq, List.mem_cons, List.not_mem_nil, or_false] at hc
    rcases hc with rfl | rfl | rfl | rfl | rfl | rfl <;> decide
  unfold announcedRadix?
  cases hletter : isApart letter.char with
  | true => simp [ahead_cons, hzero, hletter, hnone]
  | false => simp [ahead_cons, hzero, hletter]

/-- Without a zero in front of another character no base is announced. -/
lemma announcedRadix?_eq_none {cs : List Glyph}
    (h : ∀ o letter rest, cs ≠ ⟨o, '0'⟩ :: letter :: rest) : announcedRadix? cs = none := by
  unfold announcedRadix?
  split
  · next c hahead =>
    rcases cs with - | ⟨⟨o, d⟩, - | ⟨letter, rest⟩⟩
    · cases hahead
    · rw [ahead_cons, ahead_nil] at hahead
      split at hahead <;> exact absurd hahead (by simp)
    · rw [ahead_cons] at hahead
      split at hahead
      · cases hahead
      · obtain rfl : d = '0' := (List.cons.inj hahead).1
        exact absurd rfl (h o letter rest)
  · rfl

/-- A numeric literal, by the base that it announces. -/
theorem numeral_eq (cs : List Glyph) :
    numeral cs = match announcedRadix? cs with
      | some radix => radixNumeral radix (cs.drop 2)
      | none => decimalNumeral cs := by
  unfold numeral
  split
  · next o letter rest =>
    rw [announcedRadix?_zero]
    cases radixOf? letter.char <;> rfl
  · next hother => rw [announcedRadix?_eq_none fun o letter rest h => hother o letter rest h]

/-- A numeric literal is cut off. -/
theorem cutsOff_numeral {cs behind : List Glyph} {x : Option Double}
    (h : numeral cs = .ok (x, behind)) :
    CutsOff i j cs behind fun cs' behind' => numeral cs' = .ok (x, behind') := by
  rw [numeral_eq] at h
  have hsame : ∀ cs' : List Glyph, ahead cs = ahead cs' →
      announcedRadix? cs' = announcedRadix? cs := by
    intro cs' hahead
    rw [announcedRadix?, ← hahead]
    rfl
  cases hradix : announcedRadix? cs with
  | none =>
    rw [hradix] at h
    refine (cutsOff_decimalNumeral h).mono ?_
    intro cs' behind' hahead _ h'
    rw [numeral_eq, hsame cs' hahead, hradix]
    exact h'
  | some radix =>
    rw [hradix] at h
    have hshape : ∃ o letter rest, cs = ⟨o, '0'⟩ :: letter :: rest := by
      by_contra hnot
      rw [announcedRadix?_eq_none fun o letter rest hcs => hnot ⟨o, letter, rest, hcs⟩] at hradix
      cases hradix
    obtain ⟨o, letter, rest, rfl⟩ := hshape
    have hdigit : ∀ c, isApart c = true → (c.isAlphanum || c == '_') = false := by
      intro c hc
      simp only [isApart, decide_eq_true_eq, List.mem_cons, List.not_mem_nil, or_false] at hc
      rcases hc with rfl | rfl | rfl | rfl | rfl | rfl <;> decide
    have hdigits := ((cutsOff_takeDigits (i := i) (j := j) hdigit rest).cons letter).cons ⟨o, '0'⟩
    simp only [radixNumeral, List.drop_succ_cons, List.drop_zero] at h
    split at h
    · next n hvalue =>
      split at h
      · cases h
      · next hrange =>
        obtain ⟨⟨⟩, ⟨⟩⟩ := h
        refine hdigits.mono ?_
        intro cs' behind' hahead _ hcs'
        rw [numeral_eq, hsame cs' hahead, hradix]
        obtain ⟨zero', _, rfl, -, -, letter', rest', rfl, -, -, hdigits'⟩ := hcs'
        simp only [radixNumeral, List.drop_succ_cons, List.drop_zero, hdigits', hvalue, if_neg hrange]
    · cases h

end Numbers

end CardTable.Script
