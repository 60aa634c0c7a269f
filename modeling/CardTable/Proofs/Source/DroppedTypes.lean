import CardTable.Proofs.Script.Lexer.Scanning
import CardTable.Proofs.Source.TypedDeclarations

set_option autoImplicit false

/-!
# Comments and gaps without types

A text without the types of some of its declarations has the same gaps between its tokens, as long
as a stretch that stands in a comment does not hold the end of it.

## Main definitions

* `CardTable.Script.EndsNoComment` — a stretch holds nothing that ends a comment.

## Main results

* `CardTable.Script.Drops.ahead_eq` — a text looks the same to the lexer without types.
* `CardTable.Script.Drops.skipGap` — a gap is one without types.
-/

namespace CardTable.Script

open CardTable.Source (TypedDeclaration startsName continuesName)
open CardTable.Text (isWhite)

/-! ## Characters of declarations -/

/-- White space as a list. -/
def whiteChars : List Char :=
  ((9, 13) :: (0x20, 0x20) :: Text.whiteRanges).flatMap fun (first, last) =>
    (List.range' first (last + 1 - first)).map Char.ofNat

/-- There is no other white space. -/
lemma mem_whiteChars_of_isWhite {c : Char} (h : isWhite c = true) : c ∈ whiteChars := by
  have hrange : ∃ range ∈ (9, 13) :: (0x20, 0x20) :: Text.whiteRanges,
      range.1 ≤ c.toNat ∧ c.toNat ≤ range.2 := by
    unfold isWhite at h
    split at h
    · simp only [Bool.or_eq_true, beq_iff_eq, Bool.and_eq_true, decide_eq_true_eq] at h
      rcases h with rfl | h
      · exact ⟨(0x20, 0x20), by simp, by decide⟩
      · exact ⟨(9, 13), by simp, h⟩
    · obtain ⟨range, hmem, hc⟩ := Text.inRanges_iff.1 h
      exact ⟨range, by simp [hmem], hc⟩
  obtain ⟨⟨first, last⟩, hmem, hfirst, hlast⟩ := hrange
  refine List.mem_flatMap.2 ⟨_, hmem, List.mem_map.2 ⟨c.toNat, ?_, Char.ofNat_toNat c⟩⟩
  rw [List.mem_range'_1]
  dsimp only at hfirst hlast
  omega

/-- White space stands in no word and begins none. -/
lemma of_isWhite {c : Char} (h : isWhite c = true) :
    isGap c = true ∧ continuesWord c = false ∧ startsName c = false :=
  ⟨by rw [isGap, h, Bool.true_or],
    (by decide +kernel : ∀ c ∈ whiteChars, continuesWord c = false ∧ startsName c = false) c
      (mem_whiteChars_of_isWhite h)⟩

/-- What stands between tokens begins no word. -/
lemma startsWord_of_isGap {c : Char} (h : isGap c = true) : startsWord c = false := by
  rw [isGap, Bool.or_eq_true, beq_iff_eq] at h
  rcases h with h | rfl
  · exact (by decide +kernel : ∀ c ∈ whiteChars, startsWord c = false) c
      (mem_whiteChars_of_isWhite h)
  · decide +kernel

/-- A plain name consists of ASCII characters. -/
lemma toNat_lt_of_continuesName {c : Char} (h : continuesName c = true) : c.toNat < 0x80 := by
  have halpha : c.isAlpha = (c.isUpper || c.isLower) := rfl
  have hupper : c.isUpper = decide ('A'.val ≤ c.val ∧ c.val ≤ 'Z'.val) := rfl
  have hlower : c.isLower = (decide ('a'.val ≤ c.val) && decide (c.val ≤ 'z'.val)) := rfl
  simp only [continuesName, startsName, halpha, hupper, hlower, Char.isDigit, Bool.or_eq_true,
    Bool.and_eq_true, decide_eq_true_eq, beq_iff_eq, ge_iff_le, UInt32.le_iff_toNat_le] at h
  rcases h with ((((h | h) | rfl) | rfl) | h)
  · exact Nat.lt_of_le_of_lt h.2 (by decide)
  · exact Nat.lt_of_le_of_lt h.2 (by decide)
  · decide
  · decide
  · exact Nat.lt_of_le_of_lt h.2 (by decide)

/-- What stands in a plain name stands in a word, and what begins one begins a word. -/
lemma of_continuesName {c : Char} (h : continuesName c = true) :
    continuesWord c = true ∧ isBreak c = false ∧ c ≠ '*' ∧
      (startsName c = true → startsWord c = true ∧ isGap c = false) := by
  have hall : ∀ n < 0x80, continuesName (Char.ofNat n) = true →
      continuesWord (Char.ofNat n) = true ∧ isBreak (Char.ofNat n) = false ∧ Char.ofNat n ≠ '*' ∧
        (startsName (Char.ofNat n) = true →
          startsWord (Char.ofNat n) = true ∧ isGap (Char.ofNat n) = false) := by
    decide +kernel
  have hc := hall _ (toNat_lt_of_continuesName h)
  rw [Char.ofNat_toNat] at hc
  exact hc h

/-- The keyword of a declaration is a word, of which the lexer sees three characters at least. -/
lemma of_mem_declarators {word : List Char} (h : word ∈ Source.declarators) :
    (∀ c ∈ word, continuesName c = true) ∧ 3 ≤ word.length ∧
      ∃ c cs, word = c :: cs ∧ startsWord c = true ∧ isGap c = false := by
  simp only [Source.declarators, List.mem_cons, List.not_mem_nil, or_false] at h
  rcases h with rfl | rfl | rfl <;> exact ⟨by decide, by decide, _, _, rfl, by decide, by decide⟩

/-- A declaration begins with a letter. -/
lemma exists_text_eq_cons (d : TypedDeclaration) :
    ∃ c cs, d.text = c :: cs ∧ startsWord c = true ∧ isBreak c = false ∧ c ≠ '*' := by
  obtain ⟨hword, -, c, cs, hkeyword, hstart, -⟩ := of_mem_declarators d.keyword_mem
  obtain ⟨-, hbreak, hstar, -⟩ :=
    of_continuesName (hword c (by rw [hkeyword]; exact List.mem_cons_self ..))
  exact ⟨c, _, by rw [TypedDeclaration.text, hkeyword, List.cons_append], hstart, hbreak, hstar⟩

/-- All characters of a plain name stand in one. -/
lemma continuesName_of_mem {name : List Char} (hname : Source.isName name = true) {c : Char}
    (hc : c ∈ name) : continuesName c = true := by
  cases name with
  | nil => cases hc
  | cons first rest =>
    rw [Source.isName, Bool.and_eq_true, List.all_eq_true] at hname
    rcases List.mem_cons.1 hc with rfl | hc
    · rw [continuesName, hname.1, Bool.true_or]
    · exact hname.2 c hc

/-- Without its type a declaration holds nothing that ends a comment. -/
lemma of_mem_bare {d : TypedDeclaration} {c : Char} (h : c ∈ d.bare) :
    isBreak c = false ∧ c ≠ '*' := by
  have hplain : ∀ c, continuesName c = true → isBreak c = false ∧ c ≠ '*' := fun c hc =>
    ⟨(of_continuesName hc).2.1, (of_continuesName hc).2.2.1⟩
  simp only [TypedDeclaration.bare, List.mem_append, List.mem_cons, List.not_mem_nil,
    or_false] at h
  rcases h with h | rfl | h | rfl | rfl
  · exact hplain c ((of_mem_declarators d.keyword_mem).1 c h)
  · decide
  · exact hplain c (continuesName_of_mem d.isName h)
  · decide
  · decide

/-! ## Located texts -/

/-- A text that has the offsets of its characters. -/
def IsLocated (gs : List Glyph) : Prop :=
  ∃ o, gs = locate o (chars gs)

/-- Characters that are located have ascending places. -/
lemma isLocated_locate (o : Nat) (cs : List Char) : IsLocated (locate o cs) :=
  ⟨o, by rw [chars_locate]⟩

/-- The offsets of a text lie where the text stands. -/
lemma offset_of_mem_locate {o : Nat} {cs : List Char} {g : Glyph} (hg : g ∈ locate o cs) :
    o ≤ g.offset ∧ g.offset < o + Text.byteCount cs := by
  induction cs generalizing o with
  | nil => cases hg
  | cons c rest ih =>
    have hsize := c.utf8Size_pos
    rw [Text.byteCount]
    rcases List.mem_cons.1 hg with rfl | hg
    · dsimp only
      omega
    · have := ih hg
      omega

/-- The characters of a located text. -/
lemma char_mem_of_mem_locate {o : Nat} {cs : List Char} {g : Glyph} (hg : g ∈ locate o cs) :
    g.char ∈ cs := by
  have hmem := List.mem_map_of_mem (f := Glyph.char) hg
  rwa [← chars, chars_locate] at hmem

section Located

variable {gs hs : List Glyph} {g g' : Glyph}

/-- A text has as many located characters as characters. -/
lemma length_locate (o : Nat) (cs : List Char) : (locate o cs).length = cs.length := by
  conv_rhs => rw [← chars_locate o cs]
  rw [chars, List.length_map]

/-- Both parts of a located text are located, one behind the other. -/
lemma IsLocated.exists_locate (h : IsLocated (gs ++ hs)) :
    ∃ o, gs = locate o (chars gs) ∧ hs = locate (o + Text.byteCount (chars gs)) (chars hs) := by
  obtain ⟨o, h⟩ := h
  have hchars : chars (gs ++ hs) = chars gs ++ chars hs := List.map_append ..
  rw [hchars, locate_append] at h
  exact ⟨o, List.append_inj h (by rw [length_locate, chars, List.length_map])⟩

/-- The first part of located characters is located. -/
lemma IsLocated.left (h : IsLocated (gs ++ hs)) : IsLocated gs := by
  obtain ⟨o, hgs, -⟩ := h.exists_locate
  exact ⟨o, hgs⟩

/-- The last part of located characters is located. -/
lemma IsLocated.right (h : IsLocated (gs ++ hs)) : IsLocated hs := by
  obtain ⟨o, -, hhs⟩ := h.exists_locate
  exact ⟨_, hhs⟩

/-- An end of located characters is located. -/
lemma IsLocated.of_suffix (h : IsLocated hs) (hsuffix : gs <:+ hs) : IsLocated gs := by
  obtain ⟨front, rfl⟩ := hsuffix
  exact h.right

/-- What is behind a located character is located. -/
lemma IsLocated.tail (h : IsLocated (g :: hs)) : IsLocated hs :=
  h.of_suffix (List.suffix_cons ..)

/-- The offsets in the first part of a located text are smaller than those in the second one. -/
lemma IsLocated.lt (h : IsLocated (gs ++ hs)) (hg : g ∈ gs) (hg' : g' ∈ hs) :
    g.offset < g'.offset := by
  obtain ⟨o, hgs, hhs⟩ := h.exists_locate
  rw [hgs] at hg
  rw [hhs] at hg'
  exact Nat.lt_of_lt_of_le (offset_of_mem_locate hg).2 (offset_of_mem_locate hg').1

/-- The first of located characters stands in front of the others. -/
lemma IsLocated.head_lt (h : IsLocated (g :: hs)) (hg' : g' ∈ hs) : g.offset < g'.offset := by
  have h : IsLocated ([g] ++ hs) := h
  exact h.lt (List.mem_singleton_self g) hg'

/-- What is in front of the second part of a located text. -/
lemma frontOf_append (h : IsLocated (gs ++ hs)) : frontOf (gs ++ hs) hs = gs := by
  cases hs with
  | nil => exact List.append_nil _
  | cons l hs =>
    have hfront : ∀ x ∈ gs, decide (x.offset < l.offset) = true := fun x hx =>
      decide_eq_true (h.lt hx (List.mem_cons_self ..))
    rw [frontOf, before, List.takeWhile_append_of_pos hfront,
      List.takeWhile_cons_of_neg (by simp), List.append_nil]

end Located

/-! ## Stretches in comments -/

/-- A stretch holds nothing that ends a comment. -/
def EndsNoComment (s : List Glyph) : Prop :=
  (∀ c ∈ chars s, isBreak c = false) ∧ ¬ ['*', '/'] <:+: chars s

/-- The stretches that begin in front of `left` hold nothing that ends a comment. -/
def EndNoComment (ok : List Glyph → Prop) (left : List Glyph) : Prop :=
  ∀ s, ok s → (∀ g ∈ s.head?, ∀ l ∈ left, g.offset < l.offset) → EndsNoComment s

section Drops

variable {ok : List Glyph → Prop} {gs left behind : List Glyph} {cs : List Char} {g : Glyph}
  {broken : Bool}

/-- The first characters are kept, as many as the shortest keyword has. -/
lemma Drops.take_eq (h : Drops ok gs cs) : ∀ n ≤ 3, cs.take n = (chars gs).take n := by
  induction h with
  | nil => exact fun _ _ => rfl
  | keep g h ih =>
    rintro (_ | n) hn
    · rfl
    · exact congrArg (g.char :: ·) (ih n (Nat.le_of_succ_le hn))
  | @declaration s gs cs d hs =>
    intro n hn
    obtain ⟨-, hlength, -⟩ := of_mem_declarators d.keyword_mem
    have hchars : chars (s ++ gs) = d.text ++ chars gs := by rw [← hs, chars, List.map_append]; rfl
    rw [hchars, TypedDeclaration.bare, TypedDeclaration.text, List.append_assoc, List.append_assoc,
      List.take_append_of_le_length (Nat.le_trans hn hlength),
      List.take_append_of_le_length (Nat.le_trans hn hlength)]

/-- Nothing is dropped where there is nothing. -/
lemma Drops.eq_nil (h : Drops ok [] cs) : cs = [] := by
  simpa [chars] using h.take_eq 1 (by decide)

/-- A stretch by its first character, which begins a word and ends no comment. -/
lemma exists_stretch {s : List Glyph} {d : TypedDeclaration} (hs : chars s = d.text) :
    ∃ g s', s = g :: s' ∧ startsWord g.char = true ∧ isBreak g.char = false ∧ g.char ≠ '*' := by
  obtain ⟨c, more, htext, hfirst⟩ := exists_text_eq_cons d
  rw [htext] at hs
  cases s with
  | nil => cases hs
  | cons g s =>
    obtain ⟨rfl, -⟩ := List.cons.inj hs
    exact ⟨g, s, rfl, hfirst⟩

/-- The first character is kept on its own, or a stretch begins with it. -/
lemma Drops.cases_cons (h : Drops ok (g :: gs) cs) :
    (∃ rest, cs = g.char :: rest ∧ Drops ok gs rest) ∨
      ∃ (d : TypedDeclaration) (s left : List Glyph) (rest : List Char), gs = s ++ left ∧
        chars (g :: s) = d.text ∧ ok (g :: s) ∧ cs = d.bare ++ rest ∧ Drops ok left rest := by
  generalize hgs : g :: gs = all at h
  cases h with
  | nil => cases hgs
  | keep _ h =>
    obtain ⟨rfl, rfl⟩ := List.cons.inj hgs
    exact .inl ⟨_, rfl, h⟩
  | declaration d hs hok h =>
    obtain ⟨_, s, rfl, -⟩ := exists_stretch hs
    obtain ⟨rfl, rfl⟩ := List.cons.inj hgs
    exact .inr ⟨d, s, _, _, rfl, hs, hok, rfl, h⟩

/-- The first character is kept, and if it begins no word, then so are those behind it. -/
lemma Drops.exists_cons (h : Drops ok (g :: gs) cs) :
    ∃ rest, cs = g.char :: rest ∧ (startsWord g.char = false → Drops ok gs rest) := by
  rcases h.cases_cons with ⟨rest, rfl, hrest⟩ | ⟨d, s, left, rest, rfl, hs, -, rfl, -⟩
  · exact ⟨rest, rfl, fun _ => hrest⟩
  · obtain ⟨c, cs, hcs⟩ := List.exists_cons_of_ne_nil (l := d.bare)
      (by simp [TypedDeclaration.bare])
    have hfirst := h.take_eq 1 (by decide)
    rw [hcs] at hfirst ⊢
    obtain ⟨rfl, -⟩ := List.cons.inj hfirst
    obtain ⟨_, _, ⟨⟩, hstart, -⟩ := exists_stretch hs
    refine ⟨_, rfl, fun hnot => ?_⟩
    cases hnot.symm.trans hstart

/-- **A text looks the same** to the lexer without types. -/
theorem Drops.ahead_eq (h : Drops ok gs cs) (o : Nat) : ahead (locate o cs) = ahead gs := by
  rw [ahead, ahead, chars_locate, h.take_eq 2 (by decide)]

/-- The first character is the same. -/
lemma Drops.head?_eq (h : Drops ok gs cs) (o : Nat) :
    (locate o cs).head?.map Glyph.char = gs.head?.map Glyph.char := by
  cases gs with
  | nil => rw [h.eq_nil]; rfl
  | cons g gs =>
    obtain ⟨rest, rfl, -⟩ := h.exists_cons
    rfl

/-- A stretch in front of `left` ends no comment. -/
lemma EndNoComment.endsNoComment {s : List Glyph} (hok : EndNoComment ok left)
    (hs : ok (g :: s)) (hgs : IsLocated (g :: s ++ gs)) (hleft : left <:+ s ++ gs) :
    EndsNoComment (g :: s) := by
  refine hok _ hs ?_
  rintro _ ⟨⟩ l hl
  exact hgs.head_lt (hleft.mem hl)

/-- **A line comment** is one without types. -/
theorem Drops.dropWhile (h : Drops ok gs cs) (hgs : IsLocated gs) (hok : EndNoComment ok left)
    (hleft : left <:+ gs.dropWhile fun g => !isBreak g.char) (o : Nat) :
    ∃ o' cs', (locate o cs).dropWhile (fun g => !isBreak g.char) = locate o' cs' ∧
      Drops ok (gs.dropWhile fun g => !isBreak g.char) cs' := by
  induction h generalizing o with
  | nil => exact ⟨o, [], rfl, .nil⟩
  | @keep gs cs g h ih =>
    rw [List.dropWhile_cons] at hleft ⊢
    rw [locate, List.dropWhile_cons]
    by_cases hbreak : (!isBreak g.char) = true
    · rw [if_pos hbreak] at hleft ⊢
      rw [if_pos hbreak]
      exact ih hgs.tail hleft _
    · rw [if_neg hbreak, if_neg hbreak]
      exact ⟨o, g.char :: cs, rfl, .keep g h⟩
  | @declaration s gs cs d hs hsok h ih =>
    obtain ⟨g, s, rfl, -, hbreak, -⟩ := exists_stretch hs
    have hrest : left <:+ s ++ gs := by
      rw [List.cons_append, List.dropWhile_cons_of_pos (by simp [hbreak])] at hleft
      exact hleft.trans (List.dropWhile_suffix _)
    have hends := hok.endsNoComment hsok hgs hrest
    have hstretch : ∀ x ∈ g :: s, (!isBreak x.char) = true := fun x hx => by
      rw [hends.1 _ (List.mem_map_of_mem hx), Bool.not_false]
    have hbare : ∀ x ∈ locate o d.bare, (!isBreak x.char) = true := fun x hx => by
      rw [(of_mem_bare (char_mem_of_mem_locate hx)).1, Bool.not_false]
    rw [List.dropWhile_append_of_pos hstretch] at hleft ⊢
    rw [locate_append, List.dropWhile_append_of_pos hbare]
    exact ih hgs.right hleft _

/-- Inside a block comment a piece that does not end it is skipped. -/
lemma blockComment?_append {s : List Glyph} (hbreak : ∀ c ∈ chars s, isBreak c = false)
    (hend : ¬ ['*', '/'] <:+: chars s) (hlast : (chars s).getLast? ≠ some '*') (gs : List Glyph) :
    blockComment? (s ++ gs) = blockComment? gs := by
  induction s with
  | nil => rfl
  | cons g s ih =>
    have hopen : ¬ (g.char = '*' ∧ (s ++ gs).head?.map Glyph.char = some '/') := by
      rintro ⟨hstar, hslash⟩
      cases s with
      | nil => exact hlast (by simp [chars, hstar])
      | cons g' s =>
        have hslash' : g'.char = '/' := by simpa using hslash
        exact hend ⟨[], chars s, by simp [chars, hstar, hslash']⟩
    rw [List.cons_append, blockComment?_cons, if_neg hopen, hbreak _ (List.mem_cons_self ..), ih]
    · simp
    · exact fun c hc => hbreak c (List.mem_cons_of_mem _ hc)
    · exact fun hwithin => hend (hwithin.trans (List.suffix_cons ..).isInfix)
    · cases s with
      | nil => simp [chars]
      | cons g' s => simpa [chars] using hlast

/-- **A block comment** is one without types.

**Proof sketch.** Induction on the types that are dropped. A character that is kept closes the
comment in both texts or in neither. A declaration inside a comment does not end it, neither as it
was nor as it is left, so that the search goes on behind it. -/
theorem Drops.blockComment? (h : Drops ok gs cs) (hgs : IsLocated gs) (hok : EndNoComment ok left)
    (hblock : Script.blockComment? gs = some (broken, behind)) (hleft : left <:+ behind) (o : Nat) :
    ∃ o' cs', Script.blockComment? (locate o cs) = some (broken, locate o' cs') ∧
      Drops ok behind cs' := by
  induction h generalizing o broken with
  | nil => cases hblock
  | @keep gs cs g h ih =>
    rw [blockComment?_cons] at hblock
    rw [locate, blockComment?_cons, h.head?_eq]
    by_cases hclose : g.char = '*' ∧ gs.head?.map Glyph.char = some '/'
    · rw [if_pos hclose] at hblock ⊢
      obtain ⟨⟨⟩, rfl⟩ := hblock
      cases gs with
      | nil => cases hclose.2
      | cons g' gs =>
        have hslash : g'.char = '/' := by simpa using hclose.2
        obtain ⟨rest, rfl, hrest⟩ := h.exists_cons
        exact ⟨_, rest, rfl, hrest (by rw [hslash]; decide)⟩
    · rw [if_neg hclose] at hblock ⊢
      simp only [Option.map_eq_some_iff, Prod.mk.injEq, Prod.exists] at hblock
      obtain ⟨inside, _, hinside, rfl, rfl⟩ := hblock
      obtain ⟨o', cs', hcs', hdrops⟩ :=
        ih hgs.tail hinside (o + g.char.utf8Size)
      exact ⟨o', cs', by rw [hcs']; rfl, hdrops⟩
  | @declaration s gs cs d hs hsok h ih =>
    obtain ⟨g, s, rfl, -, -, hstar⟩ := exists_stretch hs
    have hrest : left <:+ s ++ gs := by
      rw [List.cons_append, blockComment?_cons, if_neg fun hclose => hstar hclose.1] at hblock
      simp only [Option.map_eq_some_iff, Prod.mk.injEq, Prod.exists] at hblock
      obtain ⟨inside, _, hinside, -, rfl⟩ := hblock
      obtain ⟨front, hfront⟩ := (cutsOff_blockComment? (i := 0) (j := 0) hinside).exists_front
      exact hleft.trans ⟨front, hfront.symm⟩
    have hends := hok.endsNoComment hsok hgs hrest
    have hlast : (chars (g :: s)).getLast? ≠ some '*' := by
      simp [hs, TypedDeclaration.text]
    have hbare : chars (locate o d.bare) = d.bare := chars_locate o d.bare
    have hstar' : '*' ∉ d.bare := fun h => (of_mem_bare h).2 rfl
    rw [blockComment?_append hends.1 hends.2 hlast] at hblock
    rw [locate_append, blockComment?_append]
    · exact ih hgs.right hblock _
    · exact fun c hc => (of_mem_bare (hbare ▸ hc)).1
    · exact fun hwithin => hstar' (hbare ▸ hwithin.mem (List.mem_cons_self ..))
    · exact fun hlast => hstar' (hbare ▸ List.mem_of_getLast? hlast)

/-- What is behind a gap ends the text. -/
lemma isSuffix_of_skipGap (h : Script.skipGap gs = .ok (broken, left)) : left <:+ gs := by
  fun_induction Script.skipGap gs generalizing broken with
  | case1 =>
    obtain ⟨⟨⟩⟩ := h
    exact List.suffix_rfl
  | case2 g rest _ ih =>
    obtain ⟨_, hrest⟩ := exists_of_map_eq_ok h
    exact (ih hrest).trans (List.suffix_cons ..)
  | case3 g _ _ _ rest ih =>
    exact (ih h).trans ((List.dropWhile_suffix _).trans
      ((List.suffix_cons ..).trans (List.suffix_cons ..)))
  | case4 => cases h
  | case5 g _ _ _ rest _ behind hcomment ih =>
    obtain ⟨_, hbehind⟩ := exists_of_map_eq_ok h
    obtain ⟨front, rfl⟩ := (cutsOff_blockComment? (i := 0) (j := 0) hcomment).exists_front
    exact (ih hbehind).trans ((List.suffix_append ..).trans
      ((List.suffix_cons ..).trans (List.suffix_cons ..)))
  | case6 =>
    obtain ⟨⟨⟩⟩ := h
    exact List.suffix_rfl
  | case7 =>
    obtain ⟨⟨⟩⟩ := h
    exact List.suffix_rfl

/-- **A gap** is one without types.

**Proof sketch.** Induction along the gap in the text with types. White space is kept, and a comment
goes as far without types as with them (`Drops.dropWhile`, `Drops.blockComment?`). -/
theorem Drops.skipGap (h : Drops ok gs cs) (hgs : IsLocated gs) (hok : EndNoComment ok left)
    (hgap : Script.skipGap gs = .ok (broken, left)) (o : Nat) :
    ∃ o' cs', Script.skipGap (locate o cs) = .ok (broken, locate o' cs') ∧ Drops ok left cs' := by
  fun_induction Script.skipGap gs generalizing cs broken o with
  | case1 =>
    obtain ⟨⟨⟩⟩ := hgap
    obtain rfl := h.eq_nil
    exact ⟨o, [], by rw [locate, Script.skipGap], .nil⟩
  | case2 g rest hg ih =>
    obtain ⟨later, hrest⟩ := exists_of_map_eq_ok hgap
    obtain ⟨cs, rfl, hdrops⟩ := h.exists_cons
    obtain ⟨o', cs', hskip, hleft⟩ := ih (hdrops (startsWord_of_isGap hg))
      hgs.tail hrest (o + g.char.utf8Size)
    refine ⟨o', cs', ?_, hleft⟩
    rw [hrest] at hgap
    obtain ⟨⟨⟩⟩ := hgap
    rw [locate, skipGap_of_isGap (g := ⟨o, g.char⟩) _ hg, hskip]
    rfl
  | case3 g _ hslash o₁ rest ih =>
    obtain ⟨_, rfl, hsecond⟩ := h.exists_cons
    obtain ⟨cs, rfl, hdrops⟩ := (hsecond (by rw [hslash]; decide)).exists_cons
    have hdrops := hdrops (by decide : startsWord '/' = false)
    have hrest : IsLocated rest := hgs.tail.tail
    obtain ⟨o', cs', hline, hleft⟩ :=
      hdrops.dropWhile hrest hok (isSuffix_of_skipGap hgap) (o + g.char.utf8Size + 1)
    obtain ⟨o'', cs'', hskip, hleft⟩ := ih hleft (hrest.of_suffix (List.dropWhile_suffix _)) hgap o'
    refine ⟨o'', cs'', ?_, hleft⟩
    rw [← hskip, ← hline]
    exact @skipGap_of_line ⟨o, g.char⟩ ⟨o + g.char.utf8Size, '/'⟩ _ hslash rfl
  | case4 => cases hgap
  | case5 g _ hslash o₁ rest inside behind hcomment ih =>
    obtain ⟨later, hbehind⟩ := exists_of_map_eq_ok hgap
    obtain ⟨_, rfl, hsecond⟩ := h.exists_cons
    obtain ⟨cs, rfl, hdrops⟩ := (hsecond (by rw [hslash]; decide)).exists_cons
    have hdrops := hdrops (by decide : startsWord '*' = false)
    have hrest : IsLocated rest := hgs.tail.tail
    obtain ⟨front, hfront⟩ := (cutsOff_blockComment? (i := 0) (j := 0) hcomment).exists_front
    obtain ⟨o', cs', hblock, hleft⟩ := hdrops.blockComment? hrest hok hcomment
      (isSuffix_of_skipGap hbehind) (o + g.char.utf8Size + 1)
    obtain ⟨o'', cs'', hskip, hleft⟩ := ih hleft (hrest.of_suffix ⟨front, hfront.symm⟩) hbehind o'
    refine ⟨o'', cs'', ?_, hleft⟩
    rw [hbehind] at hgap
    obtain ⟨⟨⟩⟩ := hgap
    have hboth := @skipGap_of_block ⟨o, g.char⟩ ⟨o + g.char.utf8Size, '*'⟩ _ _ _
      hslash rfl hblock
    rw [hskip] at hboth
    exact hboth
  | case6 g rest _ hslash hline hblock =>
    obtain ⟨⟨⟩⟩ := hgap
    obtain ⟨cs, rfl, hdrops⟩ := h.exists_cons
    have hhead := (hdrops (by rw [hslash]; decide)).head?_eq (o + g.char.utf8Size)
    refine ⟨o, g.char :: cs, skipGap_of_slash hslash ?_ ?_, h⟩
    · rw [hhead, Ne, head?_eq_some_iff]
      rintro ⟨o, behind, h⟩
      exact hline o behind h
    · rw [hhead, Ne, head?_eq_some_iff]
      rintro ⟨o, behind, h⟩
      exact hblock o behind h
  | case7 g rest hg hslash =>
    obtain ⟨⟨⟩⟩ := hgap
    obtain ⟨cs, rfl, -⟩ := h.exists_cons
    exact ⟨o, g.char :: cs, skipGap_of_not_isGap _ (by simpa using hg) hslash, h⟩

end Drops

end CardTable.Script
