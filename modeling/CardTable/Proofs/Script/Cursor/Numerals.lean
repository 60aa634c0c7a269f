import CardTable.Proofs.Script.Cursor.Gaps

set_option autoImplicit false

/-!
# Numeric literals and cursors

A cursor passes the characters of a numeric literal first, and what it has passed is cut out and
read as a number afterwards. The lexer of located text reads the number on the way. Both find the
same literal, since a literal that is cut out is still read as far as it was read before.

## Main definitions

* `CardTable.Script.Cursor.TakesOff` — a reader that is not changed by cutting its text short.

## Main results

* `CardTable.Script.Cursor.exists_decimalNumeral` — a decimal literal by the text that spells it.
* `CardTable.Script.Cursor.numeral_eq_announced` — the base that a literal announces.
* `CardTable.Script.Cursor.number_place` — a cursor cuts off numeric literals.
-/

namespace CardTable.Script.Cursor

open Text (byteCount byteCount_append)

/-! ## Numbers -/

/-- What `f` takes off the text `cs` it takes off as well if the text is cut short further on. -/
def TakesOff {β : Type} (f : List Glyph → β × List Glyph) (cs : List Glyph) : Prop :=
  ∃ part, cs = part ++ (f cs).2 ∧ ∀ mid, mid <+: (f cs).2 → f (part ++ mid) = ((f cs).1, mid)

/-- What is left is an end of the text. -/
lemma TakesOff.isSuffix {β : Type} {f : List Glyph → β × List Glyph} {cs : List Glyph}
    (h : TakesOff f cs) : (f cs).2 <:+ cs := by
  obtain ⟨part, hpart, -⟩ := h
  exact ⟨part, hpart.symm⟩

section Numbers

variable {cs : List Glyph}

/-- Where characters of one sort end, they end as well in a text that is cut short. -/
lemma span_append_of_prefix {p : Char → Bool} {mid : List Glyph}
    (h : mid <+: cs.dropWhile fun g => p g.char) :
    ((cs.takeWhile fun g => p g.char) ++ mid).takeWhile (fun g => p g.char) =
        cs.takeWhile (fun g => p g.char) ∧
      ((cs.takeWhile fun g => p g.char) ++ mid).dropWhile (fun g => p g.char) = mid := by
  have hall : ∀ g ∈ cs.takeWhile (fun g => p g.char), p g.char = true :=
    fun g hg => List.mem_takeWhile_imp (p := fun g : Glyph => p g.char) hg
  rw [List.takeWhile_append_of_pos hall, List.dropWhile_append_of_pos hall]
  cases mid with
  | nil => exact ⟨List.append_nil _, rfl⟩
  | cons g mid =>
    obtain ⟨tail, htail⟩ := h
    have hg : ¬ p g.char = true := by
      have hnot := List.head_dropWhile_not (fun g : Glyph => p g.char) (l := cs) (by simp [← htail])
      simpa [← htail] using hnot
    have htake : (g :: mid).takeWhile (fun g => p g.char) = [] := List.takeWhile_cons_of_neg hg
    exact ⟨by rw [htake, List.append_nil], List.dropWhile_cons_of_neg hg⟩

/-- Digits are taken off the front. -/
lemma takesOff_takeDigits (p : Char → Bool) (cs : List Glyph) : TakesOff (takeDigits p) cs := by
  refine ⟨cs.takeWhile fun g => p g.char, List.takeWhile_append_dropWhile.symm, fun mid hmid => ?_⟩
  obtain ⟨htake, hdrop⟩ := span_append_of_prefix hmid
  rw [takeDigits, htake, hdrop]
  rfl

/-- A fraction is taken off the front. -/
lemma takesOff_fractionPart (cs : List Glyph) : TakesOff fractionPart cs := by
  unfold TakesOff
  rw [fractionPart.eq_def]
  split
  · next o rest =>
    obtain ⟨part, hrest, hpart⟩ := takesOff_takeDigits isDigitOrLine rest
    exact ⟨⟨o, '.'⟩ :: part, congrArg (_ :: ·) hrest, fun mid hmid => hpart mid hmid⟩
  · next hpoint =>
    refine ⟨[], rfl, fun mid hmid => ?_⟩
    rw [List.nil_append, fractionPart.eq_2]
    rintro o rest rfl
    obtain ⟨tail, rfl⟩ := hmid
    exact hpoint o _ rfl

/-- The sign of an exponent is taken off the front. -/
lemma takesOff_exponentSign (cs : List Glyph) : TakesOff exponentSign cs := by
  unfold TakesOff
  rw [exponentSign.eq_def]
  split
  · next o rest => exact ⟨[⟨o, '+'⟩], rfl, fun mid _ => rfl⟩
  · next o rest => exact ⟨[⟨o, '-'⟩], rfl, fun mid _ => rfl⟩
  · next hplus hminus =>
    refine ⟨[], rfl, fun mid hmid => ?_⟩
    rw [List.nil_append, exponentSign.eq_3]
    · rintro o rest rfl
      obtain ⟨tail, rfl⟩ := hmid
      exact hplus o _ rfl
    · rintro o rest rfl
      obtain ⟨tail, rfl⟩ := hmid
      exact hminus o _ rfl

/-- An exponent is taken off the front. -/
lemma takesOff_exponentPart (cs : List Glyph) : TakesOff exponentPart cs := by
  unfold TakesOff
  cases cs with
  | nil =>
    refine ⟨[], rfl, fun mid hmid => ?_⟩
    obtain rfl : mid = [] := List.prefix_nil.1 hmid
    rfl
  | cons g rest =>
  by_cases hg : g.char = 'e' ∨ g.char = 'E'
  · obtain ⟨sign, hsign, hcut⟩ := takesOff_exponentSign rest
    rw [exponentPart, if_pos hg]
    dsimp only
    have hdigits := List.takeWhile_append_dropWhile (p := fun g : Glyph => g.char.isDigit)
      (l := (exponentSign rest).2)
    refine ⟨g :: sign ++ (exponentSign rest).2.takeWhile fun g => g.char.isDigit, ?_, ?_⟩
    · rw [List.append_assoc, hdigits, List.cons_append, ← hsign]
    · intro mid hmid
      obtain ⟨htake, hdrop⟩ := span_append_of_prefix hmid
      have hshort : (exponentSign rest).2.takeWhile (fun g => g.char.isDigit) ++ mid <+:
          (exponentSign rest).2 := by
        obtain ⟨tail, htail⟩ := hmid
        exact ⟨tail, by rw [List.append_assoc, htail, hdigits]⟩
      rw [List.append_assoc, List.cons_append, exponentPart, if_pos hg, hcut _ hshort]
      dsimp only
      rw [htake, hdrop]
  · rw [exponentPart, if_neg hg]
    refine ⟨[], rfl, fun mid hmid => ?_⟩
    cases mid with
    | nil => rfl
    | cons g' mid =>
      obtain ⟨rfl, -⟩ := List.cons_prefix_cons.1 hmid
      rw [List.nil_append, exponentPart, if_neg hg]

/-- A decimal literal that is a whole text is one wherever it stands. -/
lemma decimalNumeral_of_twin {i j : Nat} {cs' : List Glyph} {x : Option Double}
    (htwin : Twin i j cs cs') (h : decimalNumeral cs = .ok (x, [])) :
    decimalNumeral cs' = .ok (x, []) := by
  obtain ⟨front, hfront, hcut⟩ := cutsOff_decimalNumeral (i := i) (j := j) h
  rw [List.append_nil] at hfront
  subst hfront
  simpa using hcut cs' [] htwin rfl

/-- A text has a decimal value if it is a decimal numeral throughout. -/
lemma decimalValue?_eq_some_iff (h : IsLocated cs) {x : Option Double} :
    decimalValue? (chars cs) = some x ↔ decimalNumeral cs = .ok (x, []) := by
  obtain ⟨o, ho⟩ := h
  have hthere : Twin 0 o cs (locate 0 (chars cs)) := by
    conv_lhs => rw [ho]
    exact twin_locate 0 o _
  have hback : Twin o 0 (locate 0 (chars cs)) cs := by
    conv_rhs => rw [ho]
    exact twin_locate o 0 _
  unfold decimalValue?
  constructor
  · intro h
    split at h
    · next y hy =>
      obtain rfl := Option.some.inj h
      exact decimalNumeral_of_twin hback hy
    · cases h
  · intro h
    rw [decimalNumeral_of_twin hthere h]

/-- A decimal literal, by its parts. -/
lemma decimalNumeral_of_parts {whole fraction : List Char} {exponent : Option Int}
    {ds es behind : List Glyph} (hwhole : takeDigits isDigitOrLine cs = (whole, ds))
    (hfraction : fractionPart ds = (fraction, es))
    (hexponent : exponentPart es = (exponent, behind)) :
    decimalNumeral cs =
      if behind.head?.map Glyph.char = some 'n' then .error .bigInteger
      else if (behind.head?.map Glyph.char).any startsWord then .error .wordBehindNumber
      else
        match exponent.filter fun _ => whole ++ fraction ≠ [] with
        | some n => .ok (Double.ofDecimal? false (Text.digitsValue (whole ++ fraction))
            (n - fraction.length), behind)
        | none => .error .malformedNumber := by
  simp only [decimalNumeral, hwhole, hfraction, hexponent]
  refine if_congr Iff.rfl rfl (if_congr Iff.rfl rfl ?_)
  cases exponent with
  | none => rfl
  | some n => by_cases hdigits : whole ++ fraction = [] <;> simp [Option.filter, hdigits]

/-- A decimal literal, by the text that spells it and the character behind it. -/
theorem exists_decimalNumeral (h : IsLocated cs) : ∃ front behind, cs = front ++ behind ∧
    (exponentPart (fractionPart (takeDigits isDigitOrLine cs).2).2).2 = behind ∧
    decimalNumeral cs =
      if behind.head?.map Glyph.char = some 'n' then .error .bigInteger
      else if (behind.head?.map Glyph.char).any startsWord then .error .wordBehindNumber
      else
        match decimalValue? (chars front) with
        | some x => .ok (x, behind)
        | none => .error .malformedNumber := by
  obtain ⟨whole, hwhole, hcutWhole⟩ := takesOff_takeDigits isDigitOrLine cs
  rcases hdigits : takeDigits isDigitOrLine cs with ⟨digits, ds⟩
  obtain ⟨point, hpoint, hcutPoint⟩ := takesOff_fractionPart ds
  rcases hfraction : fractionPart ds with ⟨fraction, es⟩
  obtain ⟨letter, hletter, hcutLetter⟩ := takesOff_exponentPart es
  rcases hexponent : exponentPart es with ⟨exponent, behind⟩
  simp only [hdigits, hfraction, hexponent] at hwhole hcutWhole hpoint hcutPoint hletter hcutLetter
  have hcs : cs = (whole ++ (point ++ letter)) ++ behind := by
    rw [List.append_assoc, List.append_assoc, ← hletter, ← hpoint, ← hwhole]
  refine ⟨whole ++ (point ++ letter), behind, hcs, rfl, ?_⟩
  -- cut short behind its parts, the literal has the same parts
  have hletter' := hcutLetter [] List.nil_prefix
  have hpoint' := hcutPoint letter ⟨behind, hletter.symm⟩
  have hwhole' := hcutWhole (point ++ letter)
    ⟨behind, by rw [List.append_assoc, ← hletter, ← hpoint]⟩
  rw [List.append_nil] at hletter'
  have hvalue := fun x => decimalValue?_eq_some_iff (x := x) ((hcs ▸ h).left)
  rw [decimalNumeral_of_parts hwhole' hpoint' hletter'] at hvalue
  rw [decimalNumeral_of_parts hdigits hfraction hexponent]
  refine if_congr Iff.rfl rfl (if_congr Iff.rfl rfl ?_)
  cases hn : exponent.filter fun _ => digits ++ fraction ≠ [] with
  | none =>
    have hnone : decimalValue? (chars (whole ++ (point ++ letter))) = none :=
      Option.eq_none_iff_forall_ne_some.2 fun x hx => by
        have hx' := (hvalue x).1 hx
        simp only [hn] at hx'
        cases hx'
    rw [hnone]
  | some n =>
    rw [(hvalue _).2 (by simp only [hn]; rfl)]

/-- The base that a numeric literal announces. -/
theorem numeral_eq_announced (cs : List Glyph) :
    numeral cs =
      match announced? (cs.head?.map Glyph.char) (cs[1]?.map Glyph.char) with
      | some radix => radixNumeral radix (cs.drop 2)
      | none => decimalNumeral cs := by
  unfold numeral
  split
  · next o letter rest => cases hradix : radixOf? letter.char <;> simp [announced?, hradix]
  · next hzero =>
    have hnone : announced? (cs.head?.map Glyph.char) (cs[1]?.map Glyph.char) = none := by
      unfold announced?
      split
      · next letter hfirst hsecond =>
        obtain ⟨o, rest, rfl⟩ := head?_eq_some_iff.1 hfirst
        cases rest with
        | nil => simp at hsecond
        | cons g rest => exact absurd rfl (hzero o g rest)
      · rfl
    rw [hnone]

variable {input : Input}

/-- The cursor goes over a fraction. -/
lemma skipFraction_place (h : cs <:+ input.glyphs) :
    skipFraction input (place input cs) = pure (place input (fractionPart cs).2) := by
  rw [skipFraction, peek_place h, pure_bind]
  split
  · next hfirst =>
    obtain ⟨o, rest, rfl⟩ := head?_eq_some_iff.1 hfirst
    rw [step_place h, pure_bind, skipWhile_place (isSuffix_of_cons h)]
    rfl
  · next hfirst =>
    rw [fractionPart.eq_2 cs (by rintro o rest rfl; exact hfirst rfl)]

/-- The cursor goes over the sign of an exponent. -/
lemma skipSign_place (h : cs <:+ input.glyphs) :
    skipSign input (place input cs) = pure (place input (exponentSign cs).2) := by
  rw [skipSign, peek_place h, pure_bind]
  split
  · next hfirst =>
    rcases hfirst with hfirst | hfirst <;>
    · obtain ⟨o, rest, rfl⟩ := head?_eq_some_iff.1 hfirst
      rw [step_place h]
      rfl
  · next hfirst =>
    rw [exponentSign.eq_3 cs (by rintro o rest rfl; exact hfirst (.inl rfl))
      (by rintro o rest rfl; exact hfirst (.inr rfl))]

/-- The cursor goes over an exponent. -/
lemma skipExponent_place (h : cs <:+ input.glyphs) :
    skipExponent input (place input cs) = pure (place input (exponentPart cs).2) := by
  rw [skipExponent, peek_place h, pure_bind]
  cases cs with
  | nil => rfl
  | cons g rest =>
    rw [exponentPart, List.head?_cons, Option.map_some]
    simp only [Option.some.injEq]
    split
    · have hrest := isSuffix_of_cons h
      rw [step_place h, pure_bind, skipSign_place hrest, pure_bind,
        skipWhile_place ((takesOff_exponentSign rest).isSuffix.trans hrest)]
    · rfl

/-- A literal in another base than ten, by its digits. -/
lemma radixNumeral_eq (radix : Nat) (cs : List Glyph) :
    radixNumeral radix cs =
      match wordValue? radix (takeDigits (fun c => c.isAlphanum || c == '_') cs).1 with
      | some n => .ok (Double.ofInt? n, (takeDigits (fun c => c.isAlphanum || c == '_') cs).2)
      | none => .error .malformedNumber := by
  rw [radixNumeral, wordValue?]
  dsimp only
  cases radixValue? radix (takeDigits (fun c => c.isAlphanum || c == '_') cs).1 with
  | none => rfl
  | some n =>
    rw [Option.filter_some]
    by_cases hrange : (takeDigits (fun c => c.isAlphanum || c == '_') cs).1 ≠ [] ∧
        n < 18446744073709551616
    · rw [if_pos (decide_eq_true hrange)]
      exact if_neg (by rintro (hempty | hlarge); exacts [hrange.1 hempty, by omega])
    · rw [if_neg (by simpa using hrange)]
      exact if_pos (by by_contra hnot; exact hrange (by simpa using hnot))

/-- A base is announced by two characters of one byte each. -/
lemma exists_of_announced? {radix : Nat}
    (h : announced? (cs.head?.map Glyph.char) (cs[1]?.map Glyph.char) = some radix) :
    ∃ o letter rest, cs = ⟨o, '0'⟩ :: letter :: rest ∧ letter.char.utf8Size = 1 := by
  unfold announced? at h
  split at h
  · next letter hfirst hsecond =>
    obtain ⟨o, rest, rfl⟩ := head?_eq_some_iff.1 hfirst
    cases rest with
    | nil => cases hsecond
    | cons g rest =>
      obtain rfl : g.char = letter := Option.some.inj hsecond
      refine ⟨o, g, rest, rfl, ?_⟩
      have hmem : g.char ∈ ['x', 'X', 'o', 'O', 'b', 'B'] := by
        unfold radixOf? at h
        split at h
        · next hx => rcases hx with hx | hx <;> simp [hx]
        split at h
        · next hx => rcases hx with hx | hx <;> simp [hx]
        split at h
        · next hx => rcases hx with hx | hx <;> simp [hx]
        · cases h
      have hsize : ∀ c ∈ ['x', 'X', 'o', 'O', 'b', 'B'], c.utf8Size = 1 := by decide
      exact hsize _ hmem
  · cases h

/-- **Numbers are cut off**.

**Proof sketch.** Both cut the numeral off in the same steps, its digits, its fraction and its
exponent, and read the value from the slice between the two cursors. -/
theorem number_place (h : cs <:+ input.glyphs) :
    number input (place input cs) =
      match numeral cs with
      | .ok (x, behind) => pure (x, place input behind)
      | .error problem => fault input (place input cs) problem := by
  rw [number, peek_place h, peekAt_place h, pure_bind, pure_bind, numeral_eq_announced]
  cases hradix : announced? (cs.head?.map Glyph.char) (cs[1]?.map Glyph.char) with
  | some radix =>
    obtain ⟨o, letter, rest, rfl, hletter⟩ := exists_of_announced? hradix
    have hrest := isSuffix_of_cons (isSuffix_of_cons h)
    have hplace := place_add_two h rfl hletter
    have hsplit := List.takeWhile_append_dropWhile
      (p := fun g : Glyph => g.char.isAlphanum || g.char == '_') (l := rest)
    have hslice := slice_place (hsplit.symm ▸ hrest)
    rw [hsplit] at hslice
    simp only [List.drop_succ_cons, List.drop_zero, radixNumeral_eq, hplace, skipWhile_place hrest,
      pure_bind, hslice, takeDigits]
    cases wordValue? radix _ <;> rfl
  | none =>
    obtain ⟨front, behind, rfl, hbehind, heq⟩ :=
      exists_decimalNumeral ((isLocated_locate input.base input.src).of_suffix h)
    have hwhole := (takesOff_takeDigits isDigitOrLine (front ++ behind)).isSuffix.trans h
    have hfraction := (takesOff_fractionPart _).isSuffix.trans hwhole
    have hend := isSuffix_of_append h
    have hdigits : input.skipWhile isDigitOrLine (place input (front ++ behind)) =
        pure (place input (takeDigits isDigitOrLine (front ++ behind)).2) := skipWhile_place h _
    dsimp only
    rw [hdigits, pure_bind, skipFraction_place hwhole, pure_bind, skipExponent_place hfraction,
      pure_bind, hbehind, peek_place hend, pure_bind, slice_place h, pure_bind, heq]
    split
    · rfl
    split
    · rfl
    · cases decimalValue? (chars front) <;> rfl

end Numbers

end CardTable.Script.Cursor
