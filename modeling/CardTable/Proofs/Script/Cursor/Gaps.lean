import CardTable.Proofs.Script.Lexer.ClosingBraces
import CardTable.Proofs.Script.Cursor.Lexer

set_option autoImplicit false

/-!
# Places of a cursor, and gaps

A cursor stands at a place of its text if a part of the text begins there. The lexer of located text
walks through such parts, so that each of its steps has a step of the cursor beside it: reading a
character, passing it, and cutting out what has been passed. This is carried through for the gaps
between tokens.

## Main definitions

* `CardTable.Script.Cursor.place` — the position at which a part of a text begins.
* `CardTable.Script.Cursor.IsTrivia` — white space, U+FEFF and complete comments.
* `CardTable.Script.Cursor.ofLexer` — a run that ends as the lexer of located text does.

## Main results

* `CardTable.Script.Cursor.peek_place`, `CardTable.Script.Cursor.step_place`,
  `CardTable.Script.Cursor.slice_place` — the steps of a cursor at a place.
* `CardTable.Script.Cursor.exists_of_skipGap` — what a gap consists of.
* `CardTable.Script.Cursor.skipTrivia_place` — a cursor passes gaps.
-/

namespace CardTable.Script.Cursor

open Text (byteCount byteCount_append)

/-! ## Places -/

/-- The characters of the text, each at its offset. -/
def Input.glyphs (input : Input) : List Glyph :=
  locate input.base input.src

/-- The position at which the end `cs` of the text begins. -/
def place (input : Input) (cs : List Glyph) : Nat :=
  byteCount input.src - byteCount (chars cs)

section Places

variable {input : Input} {g : Glyph} {cs front : List Glyph}

/-- The text of characters with one more in front. -/
lemma chars_cons (g : Glyph) (cs : List Glyph) : chars (g :: cs) = g.char :: chars cs :=
  rfl

/-- The text of characters that are put together. -/
lemma chars_append (front cs : List Glyph) : chars (front ++ cs) = chars front ++ chars cs :=
  List.map_append ..

/-- The text in front of one of its ends. -/
lemma exists_of_isSuffix (h : cs <:+ input.glyphs) :
    ∃ before, input.src = before ++ chars cs ∧ byteCount before = place input cs ∧
      cs = locate (input.base + place input cs) (chars cs) := by
  obtain ⟨front, hfront⟩ := h
  have hsrc : input.src = chars front ++ chars cs := by
    rw [← chars_append, hfront, Input.glyphs, chars_locate]
  have hplace : byteCount (chars front) = place input cs := by
    rw [place, hsrc, byteCount_append]
    omega
  refine ⟨chars front, hsrc, hplace, ?_⟩
  rw [Input.glyphs, hsrc, locate_append, hplace] at hfront
  exact (List.append_inj' hfront (by rw [length_locate, chars, List.length_map])).2

/-- A part of the text takes its bytes. -/
lemma place_append (h : front ++ cs <:+ input.glyphs) :
    place input (front ++ cs) + byteCount (chars front) = place input cs := by
  obtain ⟨before, hsrc, -⟩ := exists_of_isSuffix h
  rw [place, place, hsrc, chars_append, byteCount_append, byteCount_append]
  omega

/-- A character is as many bytes behind the next one as it is long. -/
lemma place_cons (h : [g] ++ cs <:+ input.glyphs) :
    place input (g :: cs) + g.char.utf8Size = place input cs :=
  place_append h

/-- A character stands at its position. -/
lemma offset_eq (h : g :: cs <:+ input.glyphs) :
    input.base + place input (g :: cs) = g.offset := by
  obtain ⟨-, -, -, hcs⟩ := exists_of_isSuffix h
  exact (congrArg Glyph.offset (List.cons.inj hcs).1).symm

/-- What is behind a part of the text is behind a position of it. -/
lemma isSuffix_of_append (h : front ++ cs <:+ input.glyphs) : cs <:+ input.glyphs :=
  (List.suffix_append front cs).trans h

/-- What is behind a character of the text is behind a position of it. -/
lemma isSuffix_of_cons (h : g :: cs <:+ input.glyphs) : cs <:+ input.glyphs :=
  (List.suffix_cons g cs).trans h

end Places

/-! ## Reading at a place -/

section Reading

variable {input : Input} {g : Glyph} {cs front : List Glyph}

/-- **The text behind the cursor** is that of the characters that are left. -/
theorem rest_place (h : cs <:+ input.glyphs) : rest input (place input cs) = pure (chars cs) := by
  obtain ⟨before, hsrc, hplace, -⟩ := exists_of_isSuffix h
  rw [rest, behind?_eq_some_iff.2 ⟨before, hsrc, hplace⟩]

/-- The character at the cursor is the first of those that are left. -/
theorem peek_place (h : cs <:+ input.glyphs) :
    peek input (place input cs) = pure (cs.head?.map Glyph.char) := by
  rw [peek, rest_place h, pure_bind, chars, List.head?_map]

/-- A character further on is found among those that are left. -/
lemma peekAt_place (h : cs <:+ input.glyphs) (n : Nat) :
    peekAt input (place input cs) n = pure (cs[n]?.map Glyph.char) := by
  rw [peekAt, rest_place h, pure_bind, chars, List.getElem?_map]

/-- A cursor at the end of the text stays there. -/
lemma bump_place_nil (h : [] <:+ input.glyphs) :
    bump input (place input []) = pure (none, place input []) := by
  rw [bump, peek_place h]
  rfl

/-- A cursor that moves goes on by one character. -/
lemma bump_place (h : g :: cs <:+ input.glyphs) :
    bump input (place input (g :: cs)) = pure (some g.char, place input cs) := by
  rw [bump, peek_place h, ← place_cons h]
  rfl

/-- A step at the end of the text leads nowhere. -/
lemma step_place_nil (h : [] <:+ input.glyphs) :
    step input (place input []) = pure (place input []) := by
  rw [step, bump_place_nil h, pure_bind]

/-- A step leads behind the next character. -/
theorem step_place (h : g :: cs <:+ input.glyphs) :
    step input (place input (g :: cs)) = pure (place input cs) := by
  rw [step, bump_place h, pure_bind]

/-- Skipping characters drops them from those that are left. -/
lemma skipWhile_place (h : cs <:+ input.glyphs) (p : Char → Bool) :
    input.skipWhile p (place input cs) = pure (place input (cs.dropWhile fun g => p g.char)) := by
  induction cs with
  | nil =>
    rw [Input.skipWhile, peek_place h]
    rfl
  | cons g cs ih =>
    rw [Input.skipWhile, peek_place h, pure_bind]
    cases hg : p g.char with
    | true => simp [hg, step_place h, ih (isSuffix_of_cons h)]
    | false => simp [hg]

/-- The text between two places of the cursor is that of the characters between them. -/
theorem slice_place (h : front ++ cs <:+ input.glyphs) :
    slice input (place input (front ++ cs)) (place input cs) = pure (chars front) := by
  have hle := place_append h
  rw [slice, rest_place h, rest_place (isSuffix_of_append h), pure_bind, pure_bind,
    if_pos (by omega), chars_append, List.length_append, Nat.add_sub_cancel, List.take_left]

end Reading

/-! ## Gaps -/

/-- White space, U+FEFF and complete comments, in front of the text `behind`. -/
inductive IsTrivia (behind : List Char) : List Char → Prop
  | nil : IsTrivia behind []
  /-- A character that may stand between tokens. -/
  | white {c : Char} {cs : List Char} (hc : isGap c = true) (h : IsTrivia behind cs) :
      IsTrivia behind (c :: cs)
  /-- A comment up to the end of its line. -/
  | line {body cs : List Char} (hbody : ∀ c ∈ body, isBreak c = false)
      (hstop : (cs ++ behind).head?.all isBreak = true) (h : IsTrivia behind cs) :
      IsTrivia behind ('/' :: '/' :: body ++ cs)
  /-- A comment up to the first sign that closes it. -/
  | block {body cs : List Char} (hbody : ¬ ['*', '/'] <:+: body ++ ['*'])
      (h : IsTrivia behind cs) : IsTrivia behind ('/' :: '*' :: body ++ '*' :: '/' :: cs)

section Gaps

variable {cs behind : List Glyph} {broken : Bool}

/-- The sign that closes a block comment is found at its two characters. -/
lemma find?_close (g : Glyph) (rest : List Glyph) :
    find? ['*', '/'] (chars (g :: rest)) =
      if g.char = '*' ∧ rest.head?.map Glyph.char = some '/' then some 0
      else (find? ['*', '/'] (chars rest)).map (g.char.utf8Size + ·) := by
  have hiff : ['*', '/'].isPrefixOf (chars (g :: rest)) = true ↔
      g.char = '*' ∧ rest.head?.map Glyph.char = some '/' := by
    rw [List.isPrefixOf_iff_prefix, chars_cons, List.cons_prefix_cons, @eq_comm _ '*']
    cases rest with
    | nil => simp [chars]
    | cons g' rest =>
      rw [chars_cons, List.cons_prefix_cons, @eq_comm _ '/']
      simp
  rw [chars_cons, find?, ← chars_cons]
  exact if_congr hiff rfl rfl

/-- A block comment ends where the sign that closes it is found. -/
lemma exists_inside_of_blockComment? (h : blockComment? cs = some (broken, behind)) :
    ∃ inside star slash, cs = inside ++ star :: slash :: behind ∧ star.char = '*' ∧
      slash.char = '/' ∧ ¬ ['*', '/'] <:+: chars inside ++ ['*'] ∧
      find? ['*', '/'] (chars cs) = some (byteCount (chars inside)) ∧
      broken = (chars inside).any isBreak := by
  induction cs generalizing broken with
  | nil => cases h
  | cons g rest ih =>
    rw [blockComment?_cons] at h
    split at h
    · next hclose =>
      obtain ⟨o, rest, rfl⟩ := head?_eq_some_iff.1 hclose.2
      obtain ⟨⟨⟩, ⟨⟩⟩ := h
      have hfind : find? ['*', '/'] (chars (g :: ⟨o, '/'⟩ :: rest)) = some 0 := by
        rw [find?_close, if_pos hclose]
      exact ⟨[], g, ⟨o, '/'⟩, rfl, hclose.1, rfl, by decide, hfind, rfl⟩
    · next hopen =>
      simp only [Option.map_eq_some_iff, Prod.mk.injEq, Prod.exists] at h
      obtain ⟨later, _, hrest, rfl, rfl⟩ := h
      obtain ⟨inside, star, slash, rfl, hstar, hslash, hfree, hfind, rfl⟩ := ih hrest
      refine ⟨g :: inside, star, slash, rfl, hstar, hslash, ?_, ?_, rfl⟩
      · intro hinfix
        rcases List.infix_cons_iff.1 hinfix with hprefix | hinfix
        · obtain ⟨hg, hprefix⟩ := List.cons_prefix_cons.1 hprefix
          cases inside with
          | nil => exact absurd hprefix (by decide)
          | cons x inside =>
            obtain ⟨hx, -⟩ := List.cons_prefix_cons.1 hprefix
            exact hopen ⟨hg.symm, congrArg some hx.symm⟩
        · exact hfree hinfix
      · rw [find?_close, if_neg hopen, hfind]
        rfl

/-- A comment that is not closed has no closing mark behind it. -/
lemma find?_of_blockComment?_eq_none (h : blockComment? cs = none) :
    find? ['*', '/'] (chars cs) = none := by
  induction cs with
  | nil => rfl
  | cons g rest ih =>
    rw [blockComment?_cons] at h
    split at h
    · cases h
    · next hopen => rw [find?_close, if_neg hopen, ih (Option.map_eq_none_iff.1 h)]; rfl

/-- **A gap** is white space, U+FEFF and complete comments.

**Proof sketch.** Induction along the gap, with one rule of `IsTrivia` for each of its steps. -/
theorem exists_of_skipGap (h : skipGap cs = .ok (broken, behind)) :
    ∃ gap, cs = gap ++ behind ∧ IsTrivia (chars behind) (chars gap) ∧
      broken = (chars gap).any isBreak := by
  fun_induction skipGap cs generalizing broken with
  | case1 =>
    obtain ⟨⟨⟩⟩ := h
    exact ⟨[], rfl, .nil, rfl⟩
  | case2 g rest hgap ih =>
    obtain ⟨⟨later, _⟩, hrest, ⟨⟩⟩ := map_eq_ok_iff.1 h
    obtain ⟨gap, rfl, htrivia, rfl⟩ := ih hrest
    exact ⟨g :: gap, rfl, .white hgap htrivia, rfl⟩
  | case3 g _ hslash o rest ih =>
    obtain ⟨gap, hgap, htrivia, rfl⟩ := ih h
    have hline : ∀ c ∈ chars (rest.takeWhile fun g => !isBreak g.char), isBreak c = false := by
      intro c hc
      obtain ⟨x, hx, rfl⟩ := List.mem_map.1 hc
      simpa using List.mem_takeWhile_imp hx
    refine ⟨g :: ⟨o, '/'⟩ :: rest.takeWhile (fun g => !isBreak g.char) ++ gap, ?_, ?_, ?_⟩
    · rw [List.append_assoc, List.cons_append, List.cons_append, ← hgap,
        List.takeWhile_append_dropWhile]
    · have hstop : (chars gap ++ chars behind).head?.all isBreak = true := by
        rw [← chars_append, ← hgap]
        cases hleft : rest.dropWhile fun g => !isBreak g.char with
        | nil => rfl
        | cons b left =>
          simpa [hleft, chars_cons] using
            List.head_dropWhile_not (fun g : Glyph => !isBreak g.char) (l := rest) (by simp [hleft])
      rw [chars_append, chars_cons, chars_cons, hslash]
      exact .line hline hstop htrivia
    · have hnone : (chars (rest.takeWhile fun g => !isBreak g.char)).any isBreak = false := by
        simpa using hline
      rw [chars_append, chars_cons, chars_cons, List.any_append, List.any_cons, List.any_cons,
        hnone, hslash]
      rfl
  | case4 => cases h
  | case5 g _ hslash o rest _ left hcomment ih =>
    obtain ⟨⟨later, _⟩, hbehind, ⟨⟩⟩ := map_eq_ok_iff.1 h
    obtain ⟨gap, rfl, htrivia, rfl⟩ := ih hbehind
    obtain ⟨inside, star, slash, rfl, hstar, hclose, hfree, -, rfl⟩ :=
      exists_inside_of_blockComment? hcomment
    refine ⟨g :: ⟨o, '*'⟩ :: inside ++ star :: slash :: gap, by simp, ?_, ?_⟩
    · rw [chars_append, chars_cons, chars_cons, chars_cons, chars_cons, hslash, hstar, hclose]
      exact .block hfree htrivia
    · rw [chars_append, chars_cons, chars_cons, chars_cons, chars_cons, hslash, hstar, hclose,
        List.any_append]
      rfl
  | case6 =>
    obtain ⟨⟨⟩⟩ := h
    exact ⟨[], rfl, .nil, rfl⟩
  | case7 =>
    obtain ⟨⟨⟩⟩ := h
    exact ⟨[], rfl, .nil, rfl⟩

end Gaps

/-! ## Cutting off -/

/-- A run that ends as a reader of located text does. -/
def ofLexer {α : Type} : Except Fault α → Run α
  | .ok a => pure a
  | .error f => Run.fail (.fault f)

section Cutting

variable {input : Input} {g : Glyph} {cs behind : List Glyph}

/-- A breach at a character. -/
lemma fault_place {α : Type} (h : g :: cs <:+ input.glyphs) (problem : Problem) :
    (fault input (place input (g :: cs)) problem : Run α) =
      ofLexer (.error ⟨g.offset, problem⟩) := by
  rw [fault, offset_eq h]
  rfl

/-- Two characters of one byte each. -/
lemma place_add_two {g' : Glyph} (h : g :: g' :: cs <:+ input.glyphs)
    (hg : g.char.utf8Size = 1) (hg' : g'.char.utf8Size = 1) :
    place input (g :: g' :: cs) + 2 = place input cs := by
  have hfirst := place_cons h
  have hsecond := place_cons (isSuffix_of_cons h)
  omega

/-- What is skipped at a character, by that character and the one behind it. -/
lemma skipTrivia_cons (h : g :: cs <:+ input.glyphs) :
    input.skipTrivia (place input (g :: cs)) =
      if isGap g.char then input.skipTrivia (place input cs)
      else if g.char = '/' ∧ cs.head?.map Glyph.char = some '/' then
        input.skipTrivia (place input (cs.dropWhile fun g => !isBreak g.char))
      else if g.char = '/' ∧ cs.head?.map Glyph.char = some '*' then
        match find? ['*', '/'] (chars cs.tail) with
        | some n => input.skipTrivia (place input cs.tail + n + 2)
        | none => ofLexer (.error ⟨g.offset, .unterminatedComment⟩)
      else pure (place input (g :: cs)) := by
  have hcs := isSuffix_of_cons h
  rw [Input.skipTrivia, peek_place h, peekAt_place h, pure_bind, pure_bind, List.getElem?_cons_succ,
    ← List.head?_eq_getElem?]
  simp only [List.head?_cons, Option.map_some, Option.any_some, Option.some.injEq]
  refine if_congr Iff.rfl (by rw [step_place h, pure_bind]) (if_ctx_congr Iff.rfl ?_ fun _ =>
    if_ctx_congr Iff.rfl ?_ fun _ => rfl)
  · rintro ⟨hg, hnext⟩
    have hdrop : (g :: cs).dropWhile (fun g => !isBreak g.char) =
        cs.dropWhile fun g => !isBreak g.char := List.dropWhile_cons_of_pos (by rw [hg]; rfl)
    rw [skipWhile_place h, pure_bind, hdrop]
  · rintro ⟨hg, hnext⟩
    obtain ⟨o, rest, rfl⟩ := head?_eq_some_iff.1 hnext
    rw [place_add_two h (by rw [hg]; rfl) rfl, rest_place (isSuffix_of_cons hcs), pure_bind,
      fault_place h]
    rfl

/-- **Gaps are skipped**. -/
theorem skipTrivia_place (h : cs <:+ input.glyphs) :
    input.skipTrivia (place input cs) =
      ofLexer ((skipGap cs).map fun found => place input found.2) := by
  fun_induction skipGap cs with
  | case1 =>
    rw [Input.skipTrivia, peek_place h, peekAt_place h]
    rfl
  | case2 g rest hgap ih =>
    rw [skipTrivia_cons h, if_pos hgap, ih (isSuffix_of_cons h)]
    cases skipGap rest <;> rfl
  | case3 g hgap hslash o rest ih =>
    have hdrop : (⟨o, '/'⟩ :: rest).dropWhile (fun g => !isBreak g.char) =
        rest.dropWhile fun g => !isBreak g.char := List.dropWhile_cons_of_pos rfl
    have hleft := (List.dropWhile_suffix fun g : Glyph => !isBreak g.char).trans
      (isSuffix_of_cons (isSuffix_of_cons h))
    rw [skipTrivia_cons h, if_neg hgap, if_pos ⟨hslash, rfl⟩, hdrop, ih hleft]
  | case4 g hgap hslash o rest hcomment =>
    rw [skipTrivia_cons h, if_neg hgap, if_neg (by simp), if_pos ⟨hslash, rfl⟩, List.tail_cons,
      find?_of_blockComment?_eq_none hcomment]
    rfl
  | case5 g hgap hslash o rest _ left hcomment ih =>
    obtain ⟨inside, star, slash, rfl, hstar, hclose, -, hfind, -⟩ :=
      exists_inside_of_blockComment? hcomment
    have hrest := isSuffix_of_cons (isSuffix_of_cons h)
    have hend := isSuffix_of_append hrest
    rw [skipTrivia_cons h, if_neg hgap, if_neg (by simp), if_pos ⟨hslash, rfl⟩, List.tail_cons,
      hfind]
    dsimp only
    rw [place_append hrest, place_add_two hend (by rw [hstar]; rfl) (by rw [hclose]; rfl),
      ih (isSuffix_of_cons (isSuffix_of_cons hend))]
    cases skipGap left <;> rfl
  | case6 g rest hgap hslash hline hblock =>
    have hnext : ∀ c, (∀ o rest', rest = ⟨o, c⟩ :: rest' → False) →
        ¬ (g.char = '/' ∧ rest.head?.map Glyph.char = some c) := by
      rintro c hc ⟨-, hnext⟩
      obtain ⟨o, rest', hrest⟩ := head?_eq_some_iff.1 hnext
      exact hc o rest' hrest
    rw [skipTrivia_cons h, if_neg hgap, if_neg (hnext '/' hline), if_neg (hnext '*' hblock)]
    rfl
  | case7 g rest hgap hslash =>
    rw [skipTrivia_cons h, if_neg hgap, if_neg (mt And.left hslash), if_neg (mt And.left hslash)]
    rfl

end Cutting

end CardTable.Script.Cursor
