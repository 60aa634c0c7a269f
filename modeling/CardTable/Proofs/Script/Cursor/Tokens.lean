import CardTable.Proofs.Script.TokensWithoutTypes
import CardTable.Proofs.Script.Cursor.Numerals

set_option autoImplicit false

/-!
# Tokens cut off with a cursor

The lexer of located text and the cursor cut off the same tokens. The stretches of a template are
located text to the one, and to the other the text that stands between two positions, with the
offset of the first one. Templates stand in stretches and stretches in templates, so that both
searches are compared in one induction on the length of the text.

## Main definitions

* `CardTable.Script.Cursor.CutsTemplates` — a cursor cuts off the templates and stretches of a text.
* `CardTable.Script.Cursor.Kind.of`, `CardTable.Script.Cursor.Tok.of` — a token as a cursor gives
  it.

## Main results

* `CardTable.Script.Cursor.quoted_place` — a cursor cuts off string literals.
* `CardTable.Script.Cursor.cutsTemplates` — a cursor cuts off templates and their stretches.
* `CardTable.Script.Cursor.kindAt_place` — a cursor cuts off tokens.
* `CardTable.Script.Cursor.exists_tokenize` — the tokens of a text and behind them its end.
-/

namespace CardTable.Script.Cursor

open Text (byteCount byteCount_append)

/-! ## What is found -/

section Found

variable {α : Type} {cs ds : List Glyph}

/-- What was found at the front of a text, and what is behind it. -/
def found : Except Fault (Found α cs) → Except Fault (α × List Glyph)
  | .ok found => .ok (found.value, found.behind)
  | .error f => .error f

/-- A find at the front of the end of a text. -/
lemma found_within (r : Except Fault (Found α ds)) (h : ds.length ≤ cs.length) :
    found (r.map (·.within h)) = found r := by
  cases r <;> rfl

/-- A find is one if its faults are left out. -/
lemma found?_of_found {r : Except Fault (Found α cs)} {a : α} {behind : List Glyph}
    (h : found r = .ok (a, behind)) : found? r = some (a, behind) := by
  cases r with
  | error f => cases h
  | ok r => obtain ⟨⟨⟩⟩ := h; rfl

/-- What was found, and the position behind it. -/
def stopping (input : Input) (r : Except Fault (α × List Glyph)) : Run (α × Nat) :=
  ofLexer (r.map fun found => (found.1, place input found.2))

end Found

/-! ## Strings -/

section Strings

variable {input : Input} {g : Glyph} {cs behind : List Glyph} {quote : Char}

/-- A string literal is what stands in front of its closing quote. -/
lemma exists_of_stringBody? {body : List Char} (h : stringBody? quote cs = some (body, behind)) :
    ∃ inside close, cs = inside ++ close :: behind ∧ chars inside = body ∧ close.char = quote := by
  fun_induction stringBody? quote cs generalizing body with
  | case1 => cases h
  | case2 => cases h
  | case3 g hescape o o' rest ih =>
    obtain ⟨⟨inside, _⟩, hrest, ⟨⟩⟩ := Option.map_eq_some_iff.1 h
    obtain ⟨front, close, rfl, rfl, hclose⟩ := ih hrest
    exact ⟨g :: ⟨o, '\r'⟩ :: ⟨o', '\n'⟩ :: front, close, rfl, by rw [← hescape]; rfl, hclose⟩
  | case4 g hescape e rest _ ih =>
    obtain ⟨⟨inside, _⟩, hrest, ⟨⟩⟩ := Option.map_eq_some_iff.1 h
    obtain ⟨front, close, rfl, rfl, hclose⟩ := ih hrest
    exact ⟨g :: e :: front, close, rfl, by rw [← hescape]; rfl, hclose⟩
  | case5 g rest _ hquote =>
    obtain ⟨⟨⟩⟩ := h
    exact ⟨[], g, rfl, rfl, hquote⟩
  | case6 => cases h
  | case7 g rest _ _ _ ih =>
    obtain ⟨⟨inside, _⟩, hrest, ⟨⟩⟩ := Option.map_eq_some_iff.1 h
    obtain ⟨front, close, rfl, rfl, hclose⟩ := ih hrest
    exact ⟨g :: front, close, rfl, rfl, hclose⟩

/-- A string is not closed at the end of the text. -/
lemma skipString_place_nil (h : [] <:+ input.glyphs) (start : Nat) :
    input.skipString start quote (place input []) = fault input start .unterminatedString := by
  rw [Input.skipString, bump_place_nil h, pure_bind]

/-- The search for a closing quote, by the next character. -/
lemma skipString_cons (h : g :: cs <:+ input.glyphs) (start : Nat) :
    input.skipString start quote (place input (g :: cs)) =
      if g.char = '\\' then
        if cs.head?.map Glyph.char = some '\r' ∧ cs.tail.head?.map Glyph.char = some '\n' then
          input.skipString start quote (place input cs.tail.tail)
        else input.skipString start quote (place input cs.tail)
      else if g.char = quote then pure (place input cs)
      else if g.char = '\n' ∨ g.char = '\r' then fault input start .unterminatedString
      else input.skipString start quote (place input cs) := by
  have hcs := isSuffix_of_cons h
  rw [Input.skipString, bump_place h, pure_bind]
  dsimp only
  refine if_ctx_congr Iff.rfl (fun _ => ?_) fun _ => rfl
  cases cs with
  | nil =>
    rw [bump_place_nil hcs, pure_bind]
    dsimp only
    rw [peek_place hcs, pure_bind]
    rfl
  | cons e rest =>
    have hrest := isSuffix_of_cons hcs
    rw [bump_place hcs, pure_bind]
    dsimp only [List.head?_cons, Option.map_some, List.tail_cons]
    rw [peek_place hrest, pure_bind]
    refine if_ctx_congr Iff.rfl (fun hline => ?_) fun _ => rfl
    obtain ⟨o, left, rfl⟩ := head?_eq_some_iff.1 hline.2
    rw [step_place hrest, pure_bind, List.tail_cons]

/-- The closing quote is looked for character by character. -/
lemma skipString_place (h : cs <:+ input.glyphs) (start : Nat) :
    input.skipString start quote (place input cs) =
      match stringBody? quote cs with
      | some found => pure (place input found.2)
      | none => fault input start .unterminatedString := by
  fun_induction stringBody? quote cs with
  | case1 => exact skipString_place_nil h start
  | case2 g hescape =>
    rw [skipString_cons h, if_pos hescape, if_neg (by simp)]
    exact skipString_place_nil (isSuffix_of_cons h) start
  | case3 g hescape o o' rest ih =>
    rw [skipString_cons h, if_pos hescape, if_pos ⟨rfl, rfl⟩, List.tail_cons, List.tail_cons,
      ih (isSuffix_of_cons (isSuffix_of_cons (isSuffix_of_cons h)))]
    cases stringBody? quote rest <;> rfl
  | case4 g hescape e rest hline ih =>
    rw [skipString_cons h, if_pos hescape, if_neg, List.tail_cons,
      ih (isSuffix_of_cons (isSuffix_of_cons h))]
    · cases stringBody? quote rest <;> rfl
    · rintro ⟨hreturn, hfeed⟩
      obtain ⟨o, rest', hrest⟩ := head?_eq_some_iff.1 hreturn
      obtain ⟨rfl, rfl⟩ := List.cons.inj hrest
      obtain ⟨o', left, rfl⟩ := head?_eq_some_iff.1 hfeed
      exact hline o o' left rfl rfl
  | case5 g rest hescape hquote => rw [skipString_cons h, if_neg hescape, if_pos hquote]
  | case6 g rest hescape hquote hbreak =>
    rw [skipString_cons h, if_neg hescape, if_neg hquote, if_pos hbreak]
  | case7 g rest hescape hquote hbreak ih =>
    rw [skipString_cons h, if_neg hescape, if_neg hquote, if_neg hbreak, ih (isSuffix_of_cons h)]
    cases stringBody? quote rest <;> rfl

/-- A string literal, by its body. -/
lemma found_stringLiteral (g : Glyph) (cs : List Glyph) :
    found (stringLiteral g cs) =
      match stringBody? g.char cs with
      | none => .error ⟨g.offset, .unterminatedString⟩
      | some (body, behind) =>
        match unescape body with
        | .error e => .error ⟨g.offset, .escape e⟩
        | .ok text => .ok (String.ofList text, behind) := by
  unfold stringLiteral
  split
  · next hnone => rw [hnone]; rfl
  · next body behind hsome => cases htext : unescape body <;> simp [found, hsome, htext]

/-- **String literals are cut off**. -/
theorem quoted_place (h : g :: cs <:+ input.glyphs) (hquote : g.char.utf8Size = 1) :
    quoted input g.char (place input (g :: cs)) = stopping input (found (stringLiteral g cs)) := by
  have hcs := isSuffix_of_cons h
  rw [quoted, step_place h, pure_bind, skipString_place hcs, found_stringLiteral]
  cases hbody : stringBody? g.char cs with
  | none => exact fault_place h _
  | some literal =>
    obtain ⟨body, behind⟩ := literal
    obtain ⟨inside, close, rfl, rfl, hclose⟩ := exists_of_stringBody? hbody
    have hplace := place_cons (isSuffix_of_append hcs)
    rw [hclose, hquote] at hplace
    dsimp only
    rw [pure_bind, ← hplace, decrement, pure_bind, slice_place hcs, pure_bind]
    cases unescape (chars inside) with
    | error e => exact fault_place h _
    | ok text => rw [hplace]; rfl

end Strings

/-! ## Templates -/

section Templates

variable {input : Input} {g : Glyph} {cs front behind : List Glyph}

/-- The offset at which a stretch of a template begins. -/
def start (s : Substitution) : Nat :=
  s.stop - byteCount (chars s.source)

/-- The chunks of a template. -/
def chunksOf (head : String) (parts : List (Substitution × String)) : List String :=
  head :: parts.map Prod.snd

/-- The stretches of a template, each with its offset. -/
def stretchesOf (parts : List (Substitution × String)) : List (Nat × List Char) :=
  parts.map fun part => (start part.1, chars part.1.source)

/-- The next step of the search for the brace that closes a substitution. -/
lemma found_substitution (start depth : Nat) (g : Glyph) (rest : List Glyph) :
    found (substitution start depth (g :: rest)) =
      if g.char = '\x7d' then
        match depth with
        | 0 => .ok (g.offset, rest)
        | depth + 1 => found (substitution start depth rest)
      else if g.char = '\'' ∨ g.char = '"' then
        match found (stringLiteral g rest) with
        | .error f => .error f
        | .ok literal => found (substitution start depth literal.2)
      else if g.char = '\x60' then
        match found (Script.template g.offset [] rest) with
        | .error f => .error f
        | .ok literal => found (substitution start depth literal.2)
      else found (substitution start (if g.char = '\x7b' then depth + 1 else depth) rest) := by
  rw [substitution.eq_def]
  dsimp only
  split
  · split
    · rfl
    · exact found_within _ _
  split
  · cases stringLiteral g rest with
    | error f => rfl
    | ok literal => exact found_within _ _
  split
  · cases Script.template g.offset [] rest with
    | error f => rfl
    | ok literal => exact found_within _ _
  · exact found_within _ _

/-- The next step of the reading of a template. -/
lemma found_template (start : Nat) (read : List Char) (g : Glyph) (rest : List Glyph) :
    found (Script.template start read (g :: rest)) =
      if g.char = '\\' then
        match rest with
        | [] => .error ⟨start, .unterminatedTemplate⟩
        | e :: rest => found (Script.template start (e.char :: '\\' :: read) rest)
      else if g.char = '\x60' then
        (cookChunk start read.reverse).map fun head => ((head, []), rest)
      else if g.char = '$' ∧ rest.head?.map Glyph.char = some '\x7b' then
        match cookChunk start read.reverse with
        | .error f => .error f
        | .ok head =>
          match found (substitution start 0 rest.tail) with
          | .error f => .error f
          | .ok (stop, left) =>
            (found (Script.template start [] left)).map
              (consPart head (before stop rest.tail) stop)
      else found (Script.template start (g.char :: read) rest) := by
  rw [Script.template.eq_def]
  dsimp only
  split
  · cases rest with
    | nil => rfl
    | cons e rest => exact found_within _ _
  split
  · cases cookChunk start read.reverse <;> rfl
  split
  · cases cookChunk start read.reverse with
    | error f => rfl
    | ok head =>
      cases substitution start 0 rest.tail with
      | error f => rfl
      | ok closed =>
        dsimp only [found]
        cases Script.template start [] closed.behind <;> rfl
  · exact found_within _ _

/-- The text of a chunk. -/
lemma cook_place (h : front ++ cs <:+ input.glyphs) (start : Nat) :
    cook input start (place input (front ++ cs)) (place input cs) =
      ofLexer (cookChunk (input.base + start) (chars front)) := by
  rw [cook, slice_place h, pure_bind]
  cases cookChunk (input.base + start) (chars front) <;> rfl

/-- Templates, and the stretches in them, are cut off in the text `cs`. -/
structure CutsTemplates (input : Input) (cs : List Glyph) : Prop where
  literal (start : Nat) {front : List Glyph} (chunks : List String)
    (stretches : List (Nat × List Char)) (h : front ++ cs <:+ input.glyphs) :
    input.template start (place input (front ++ cs)) chunks stretches (place input cs) =
      stopping input ((found (Script.template (input.base + start) (chars front).reverse cs)).map
        fun found => ((chunks ++ chunksOf found.1.1 found.1.2, stretches ++ stretchesOf found.1.2),
          found.2))
  stretch {start depth : Nat} (h : cs <:+ input.glyphs) :
    input.skipSubstitution start depth (place input cs) =
      ofLexer ((found (substitution (input.base + start) depth cs)).map
        fun found => found.1 - input.base)

/-- A template, from the character behind its backtick on. -/
lemma CutsTemplates.whole (hcs : CutsTemplates input cs) (h : g :: cs <:+ input.glyphs) :
    input.template (place input (g :: cs)) (place input cs) [] [] (place input cs) =
      stopping input ((found (Script.template g.offset [] cs)).map fun found =>
        ((chunksOf found.1.1 found.1.2, stretchesOf found.1.2), found.2)) := by
  have hcs' : [] ++ cs <:+ input.glyphs := isSuffix_of_cons h
  have hliteral := hcs.literal (place input (g :: cs)) [] [] hcs'
  rw [offset_eq h] at hliteral
  exact hliteral

variable (ih : ∀ ds : List Glyph, ds.length < cs.length → CutsTemplates input ds)

include ih in
/-- **The cursor goes over a substitution** up to the brace that closes it. -/
theorem skipSubstitution_place {start depth : Nat} (h : cs <:+ input.glyphs) :
    input.skipSubstitution start depth (place input cs) =
      ofLexer ((found (substitution (input.base + start) depth cs)).map
        fun found => found.1 - input.base) := by
  cases cs with
  | nil =>
    rw [Input.skipSubstitution, peek_place h, substitution]
    rfl
  | cons g rest =>
  have hrest := isSuffix_of_cons h
  have hnext := ih rest (Nat.lt_succ_self _)
  rw [Input.skipSubstitution, peek_place h, pure_bind, found_substitution]
  dsimp only [List.head?_cons, Option.map_some]
  by_cases hclose : g.char = '\x7d'
  · rw [if_pos hclose, if_pos hclose]
    cases depth with
    | zero =>
      rw [if_pos rfl]
      show pure (place input (g :: rest)) = pure (g.offset - input.base)
      rw [← offset_eq h, Nat.add_sub_cancel_left]
    | succ depth =>
      rw [if_neg (Nat.succ_ne_zero depth), decrement, pure_bind, step_place h, pure_bind]
      exact hnext.stretch hrest
  rw [if_neg hclose, if_neg hclose]
  by_cases hopen : g.char = '\x7b'
  · have hquote : ¬ (g.char = '\'' ∨ g.char = '"') := by rw [hopen]; decide
    have htick : ¬ g.char = '\x60' := by rw [hopen]; decide
    rw [if_pos hopen, if_pos hopen, if_neg hquote, if_neg htick, step_place h, pure_bind]
    exact hnext.stretch hrest
  rw [if_neg hopen, if_neg hopen]
  by_cases hquote : g.char = '\'' ∨ g.char = '"'
  · have hsize : g.char.utf8Size = 1 := by rcases hquote with hg | hg <;> rw [hg] <;> rfl
    rw [if_pos hquote, if_pos hquote, quoted_place h hsize]
    cases hliteral : found (stringLiteral g rest) with
    | error f => rfl
    | ok literal =>
      obtain ⟨front, rfl, -⟩ := cutsOff_stringLiteral (i := 0) (j := 0) (found?_of_found hliteral)
      exact (ih literal.2 (by simp only [List.length_cons, List.length_append]; omega)).stretch
        (isSuffix_of_append hrest)
  rw [if_neg hquote, if_neg hquote]
  by_cases htick : g.char = '\x60'
  · rw [if_pos htick, if_pos htick, step_place h, pure_bind]
    rw [hnext.whole h]
    cases hfound : found (Script.template g.offset [] rest) with
    | error f => rfl
    | ok literal =>
      obtain ⟨front, rfl, -⟩ :=
        (templatesCutOff (i := 0) (j := 0) rest).literal (found?_of_found hfound)
      exact (ih literal.2 (by simp only [List.length_cons, List.length_append]; omega)).stretch
        (isSuffix_of_append hrest)
  · rw [if_neg htick, if_neg htick, step_place h, pure_bind]
    exact hnext.stretch hrest

/-- A stretch ends at the brace that closes it, and begins where it stands in the text. -/
lemma exists_of_stretch {start depth stop : Nat} {tail left : List Glyph}
    (h : tail <:+ input.glyphs)
    (hstretch : found (substitution start depth tail) = .ok (stop, left)) :
    ∃ inside brace, tail = inside ++ brace :: left ∧ brace.offset = stop ∧
      before stop tail = inside ∧ stop - input.base = place input (brace :: left) ∧
      input.base + place input tail = Cursor.start ⟨inside, stop⟩ := by
  obtain ⟨inside, brace, rfl, rfl⟩ :=
    (templatesCutOff (i := 0) (j := 0) tail).brace (found?_of_found hstretch)
  have hbrace := isSuffix_of_append h
  refine ⟨inside, brace, rfl, rfl,
    frontOf_append ((isLocated_locate input.base input.src).of_suffix h), ?_, ?_⟩
  · rw [← offset_eq hbrace, Nat.add_sub_cancel_left]
  · have hplace := place_append h
    rw [Cursor.start, ← offset_eq hbrace]
    dsimp only
    omega

include ih in
/-- A template whose chunk ends at a stretch: behind the stretch it goes on with a new chunk. -/
lemma template_place_substitution {start o : Nat} {front tail : List Glyph} {chunks : List String}
    {stretches : List (Nat × List Char)} (hcs : cs = g :: ⟨o, '\x7b'⟩ :: tail)
    (hdollar : g.char = '$') (h : front ++ cs <:+ input.glyphs) :
    input.template start (place input (front ++ cs)) chunks stretches (place input cs) =
      stopping input ((found (Script.template (input.base + start) (chars front).reverse cs)).map
        fun found => ((chunks ++ chunksOf found.1.1 found.1.2, stretches ++ stretchesOf found.1.2),
          found.2)) := by
  subst hcs
  have hsuffix := isSuffix_of_append h
  have htail := isSuffix_of_cons (isSuffix_of_cons hsuffix)
  have hopens : g.char = '$' ∧ (Glyph.mk o '\x7b' :: tail).head?.map Glyph.char = some '\x7b' :=
    ⟨hdollar, rfl⟩
  have hescape : ¬ g.char = '\\' := by rw [hdollar]; decide
  have htick : ¬ g.char = '\x60' := by rw [hdollar]; decide
  rw [found_template, if_neg hescape, if_neg htick, if_pos hopens, List.reverse_reverse,
    List.tail_cons, Input.template, peek_place hsuffix, pure_bind, List.head?_cons, Option.map_some]
  dsimp only
  rw [if_neg hescape, if_neg htick, peekAt_place hsuffix, pure_bind, List.getElem?_cons_succ,
    ← List.head?_eq_getElem?, if_pos hopens, cook_place h,
    place_add_two hsuffix (by rw [hdollar]; rfl) rfl]
  cases cookChunk (input.base + start) (chars front) with
  | error f => rfl
  | ok chunk =>
  show (input.skipSubstitution start 0 (place input tail) >>= _) = _
  rw [(ih tail (by simp only [List.length_cons]; omega)).stretch htail]
  dsimp only
  cases hstretch : found (substitution (input.base + start) 0 tail) with
  | error f => rfl
  | ok closed =>
  obtain ⟨stop, left⟩ := closed
  obtain ⟨inside, brace, rfl, rfl, hinside, hstop, hstart⟩ := exists_of_stretch htail hstretch
  have hbrace := isSuffix_of_append htail
  have hleft : [] ++ left <:+ input.glyphs := isSuffix_of_cons hbrace
  show (ofLexer (.ok (brace.offset - input.base)) >>= _) = _
  rw [hstop]
  show (slice input _ (place input (brace :: left)) >>= _) = _
  rw [slice_place htail, pure_bind, step_place hbrace, pure_bind, hstart]
  have hmore := (ih left (by simp only [List.length_cons, List.length_append]; omega)).literal
    start (chunks ++ [chunk])
    (stretches ++ [(Cursor.start ⟨inside, brace.offset⟩, chars inside)]) hleft
  rw [List.nil_append] at hmore
  rw [hmore]
  dsimp only
  rw [hinside]
  show stopping input ((found (Script.template (input.base + start) [] left)).map _) = _
  cases found (Script.template (input.base + start) [] left) with
  | error f => rfl
  | ok more =>
    dsimp only [Except.map, consPart]
    rw [List.append_assoc, List.append_assoc]
    rfl

include ih in
/-- **The cursor goes over a template**, and keeps its pieces and substitutions. -/
theorem template_place {start : Nat} {front : List Glyph} {chunks : List String}
    {stretches : List (Nat × List Char)} (h : front ++ cs <:+ input.glyphs) :
    input.template start (place input (front ++ cs)) chunks stretches (place input cs) =
      stopping input ((found (Script.template (input.base + start) (chars front).reverse cs)).map
        fun found => ((chunks ++ chunksOf found.1.1 found.1.2, stretches ++ stretchesOf found.1.2),
          found.2)) := by
  have hcs := isSuffix_of_append h
  cases cs with
  | nil =>
    rw [Input.template, peek_place hcs, Script.template]
    rfl
  | cons g rest =>
  by_cases hdollar : g.char = '$' ∧ rest.head?.map Glyph.char = some '\x7b'
  · obtain ⟨o, tail, rfl⟩ := head?_eq_some_iff.1 hdollar.2
    exact template_place_substitution ih rfl hdollar.1 h
  have hrest := isSuffix_of_cons hcs
  rw [Input.template, peek_place hcs, pure_bind, found_template]
  dsimp only [List.head?_cons, Option.map_some]
  by_cases hescape : g.char = '\\'
  · rw [if_pos hescape, if_pos hescape, step_place hcs, pure_bind]
    cases rest with
    | nil =>
      rw [step_place_nil hrest, pure_bind]
      rw [Input.template, peek_place hrest]
      rfl
    | cons e rest =>
      have hfront : front ++ g :: e :: rest = (front ++ [g, e]) ++ rest := by simp
      rw [step_place hrest, pure_bind, hfront,
        (ih rest (by simp only [List.length_cons]; omega)).literal _ _ _ (hfront ▸ h), chars_append,
        List.reverse_append, ← hescape]
      rfl
  rw [if_neg hescape, if_neg hescape]
  by_cases htick : g.char = '\x60'
  · rw [if_pos htick, if_pos htick, cook_place h, step_place hcs, List.reverse_reverse]
    cases cookChunk (input.base + start) (chars front) with
    | error f => rfl
    | ok chunk =>
      show pure ((chunks ++ [chunk], stretches), place input rest) =
        stopping input (.ok ((chunks ++ [chunk], stretches ++ []), rest))
      rw [List.append_nil]
      rfl
  · have hfront : front ++ g :: rest = (front ++ [g]) ++ rest := by simp
    rw [if_neg htick, if_neg htick, peekAt_place hcs, pure_bind, List.getElem?_cons_succ,
      ← List.head?_eq_getElem?, if_neg hdollar, if_neg hdollar, step_place hcs, pure_bind, hfront,
      (ih rest (Nat.lt_succ_self _)).literal _ _ _ (hfront ▸ h), chars_append, List.reverse_append]
    rfl

/-- **Templates are cut off**, and the stretches in them.

**Proof sketch.** Strong induction on the length of the text, for templates and stretches together:
one looks for the other behind what it has skipped (`template_place`, `skipSubstitution_place`). -/
theorem cutsTemplates (input : Input) (cs : List Glyph) :
    CutsTemplates input cs := by
  induction hn : cs.length using Nat.strongRecOn generalizing cs with
  | _ n ih =>
    subst hn
    have ih' : ∀ ds : List Glyph, ds.length < cs.length → CutsTemplates input ds :=
      fun ds h => ih ds.length h ds rfl
    exact ⟨fun _ _ _ _ => template_place ih', skipSubstitution_place ih'⟩

end Templates

/-! ## Tokens -/

/-- What a token is. -/
def Kind.of : Token → Kind
  | .word name => .word name
  | .text s => .text s
  | .number x => .number x
  | .template head parts => .template (chunksOf head parts) (stretchesOf parts)
  | .sign s => .sign s

/-- A token where it stands. -/
def Tok.of (t : Lexeme) : Tok :=
  ⟨.of t.token, t.offset, t.afterBreak⟩

section Tokens

variable {input : Input} {g : Glyph} {cs rest : List Glyph}

/-- What begins a word may stand inside it. -/
lemma continuesWord_of_startsWord {c : Char} (h : startsWord c = true) :
    continuesWord c = true := by
  simp only [startsWord, Bool.or_eq_true] at h
  simp only [continuesWord, Bool.or_eq_true]
  rcases h with h | h
  · exact .inl (.inl (.inl h))
  · refine .inl (.inl (.inr ?_))
    unfold Text.isAlphabetic at h
    unfold Text.isAlphanumeric
    split
    · next hascii =>
      rw [if_pos hascii] at h
      rw [Char.isAlphanum, h, Bool.true_or]
    · next hascii =>
      rw [if_neg hascii] at h
      rw [Text.isAlphabetic, if_neg hascii, h]
      rfl

/-- A text that begins with three dots. -/
lemma exists_of_spread {o : Nat} {c : Char}
    (h : ['.', '.', '.'].isPrefixOf (chars (⟨o, c⟩ :: rest)) = true) :
    ∃ o' o'' behind, c = '.' ∧ rest = ⟨o', '.'⟩ :: ⟨o'', '.'⟩ :: behind := by
  obtain ⟨tail, htail⟩ := List.isPrefixOf_iff_prefix.1 h
  obtain ⟨rfl, hrest⟩ := List.cons.inj htail
  rcases rest with - | ⟨⟨o', c'⟩, - | ⟨⟨o'', c''⟩, behind⟩⟩
  · cases hrest
  · cases hrest
  · obtain ⟨hsecond, hbehind⟩ := List.cons.inj hrest
    obtain ⟨hthird, -⟩ := List.cons.inj hbehind
    obtain rfl : '.' = c' := hsecond
    obtain rfl : '.' = c'' := hthird
    exact ⟨o', o'', behind, rfl, rfl⟩

/-- A word is cut off. -/
lemma kindAt_place_of_word (h : g :: rest <:+ input.glyphs) (hword : startsWord g.char = true) :
    kindAt input g.char (place input (g :: rest)) =
      stopping input ((token g rest).map fun found => (Kind.of found.1, found.2)) := by
  have hfirst : continuesWord g.char = true := continuesWord_of_startsWord hword
  have hdrop : (g :: rest).dropWhile (fun g => continuesWord g.char) =
      rest.dropWhile fun g => continuesWord g.char := List.dropWhile_cons_of_pos hfirst
  have hsplit : (g :: rest.takeWhile fun g => continuesWord g.char) ++
      rest.dropWhile (fun g => continuesWord g.char) = g :: rest := by
    rw [List.cons_append, List.takeWhile_append_dropWhile]
  have hslice := slice_place (hsplit.symm ▸ h)
  rw [hsplit] at hslice
  rw [kindAt, peekAt_place h, pure_bind, if_pos hword, token_of_word hword, skipWhile_place h,
    pure_bind, hdrop, hslice]
  rfl

/-- A sign is cut off. -/
lemma kindAt_place_of_sign (h : g :: rest <:+ input.glyphs) (hword : ¬ startsWord g.char = true)
    (hnumber : ¬ startsNumber g rest) (hquote : ¬ (g.char = '\'' ∨ g.char = '"'))
    (htick : g.char ≠ '\x60') :
    kindAt input g.char (place input (g :: rest)) =
      stopping input ((token g rest).map fun found => (Kind.of found.1, found.2)) := by
  have hdigit : (rest.head?.map Glyph.char).any Char.isDigit =
      rest.head?.any fun g => g.char.isDigit := by cases rest <;> rfl
  rw [kindAt, peekAt_place h, pure_bind, List.getElem?_cons_succ, ← List.head?_eq_getElem?,
    if_neg hword, hdigit, if_neg hnumber, if_neg hquote, if_neg htick, rest_place h, pure_bind]
  unfold token
  rw [if_neg hword, if_neg hnumber, if_neg hquote, if_neg htick]
  obtain ⟨o, c⟩ := g
  by_cases hspread : ['.', '.', '.'].isPrefixOf (chars (⟨o, c⟩ :: rest)) = true
  · obtain ⟨o', o'', behind, rfl, rfl⟩ := exists_of_spread hspread
    have hplace : place input (⟨o, '.'⟩ :: ⟨o', '.'⟩ :: ⟨o'', '.'⟩ :: behind) + 3 =
        place input behind :=
      place_append (show [⟨o, '.'⟩, ⟨o', '.'⟩, ⟨o'', '.'⟩] ++ behind <:+ input.glyphs from h)
    rw [if_pos hspread, hplace]
    rfl
  rw [if_neg hspread, peekAt_place h, pure_bind]
  by_cases hoptional : c = '?' ∧ rest.head?.map Glyph.char = some '.'
  · obtain ⟨rfl, hdot⟩ := hoptional
    obtain ⟨o', behind, rfl⟩ := head?_eq_some_iff.1 hdot
    have hbehind : ((⟨o, '?'⟩ :: ⟨o', '.'⟩ :: behind : List Glyph)[2]?.map Glyph.char).any
        Char.isDigit = behind.head?.any fun g => g.char.isDigit := by cases behind <;> rfl
    dsimp only
    rw [hbehind]
    by_cases hdigit : behind.head?.any (fun g => g.char.isDigit) = true
    · rw [if_neg (fun hsign => hsign.2.2 hdigit), step_place h]
      simp only [hdigit, if_true]
      rfl
    · rw [if_pos ⟨rfl, rfl, hdigit⟩, place_add_two h rfl rfl]
      simp only [hdigit, Bool.false_eq_true, if_false]
      rfl
  · rw [if_neg fun hsign => hoptional ⟨hsign.1, hsign.2.1⟩, step_place h]
    split
    · next hc => exact absurd (by rw [show c = '.' from hc]; rfl) hspread
    · next hc => exact absurd ⟨hc, rfl⟩ hoptional
    · rfl

/-- **Tokens are cut off**.

**Proof sketch.** By the same tests as in `token`, one after the other, each of which a cursor asks
of the character that it is at and of the next one. -/
theorem kindAt_place (h : g :: rest <:+ input.glyphs) :
    kindAt input g.char (place input (g :: rest)) =
      stopping input ((token g rest).map fun found => (Kind.of found.1, found.2)) := by
  by_cases hword : startsWord g.char = true
  · exact kindAt_place_of_word h hword
  have hdigit : (rest.head?.map Glyph.char).any Char.isDigit =
      rest.head?.any fun g => g.char.isDigit := by cases rest <;> rfl
  by_cases hsign : ¬ startsNumber g rest ∧ ¬ (g.char = '\'' ∨ g.char = '"') ∧ g.char ≠ '\x60'
  · exact kindAt_place_of_sign h hword hsign.1 hsign.2.1 hsign.2.2
  rw [kindAt, peekAt_place h, pure_bind, List.getElem?_cons_succ, ← List.head?_eq_getElem?,
    if_neg hword, hdigit]
  unfold token
  rw [if_neg hword]
  by_cases hnumber : startsNumber g rest
  · rw [if_pos hnumber, if_pos hnumber, number_place h]
    cases numeral (g :: rest) with
    | error problem => exact fault_place h _
    | ok found => rfl
  rw [if_neg hnumber, if_neg hnumber]
  by_cases hquote : g.char = '\'' ∨ g.char = '"'
  · have hsize : g.char.utf8Size = 1 := by rcases hquote with hg | hg <;> rw [hg] <;> rfl
    rw [if_pos hquote, if_pos hquote, quoted_place h hsize]
    cases stringLiteral g rest <;> rfl
  have htick : g.char = '\x60' := by_contra fun htick => hsign ⟨hnumber, hquote, htick⟩
  rw [if_neg hquote, if_neg hquote, if_pos htick, if_pos htick, step_place h, pure_bind,
    (cutsTemplates input rest).whole h]
  cases Script.template g.offset [] rest <;> rfl

/-- **The next token is cut off**, behind the gap in front of it. -/
theorem nextToken_place (h : cs <:+ input.glyphs) :
    nextToken input (place input cs) =
      match skipGap cs with
      | .error f => Run.fail (.fault f)
      | .ok (broken, []) =>
        pure (⟨.finish, input.base + byteCount input.src, broken⟩, place input [])
      | .ok (broken, g :: rest) =>
        stopping input ((token g rest).map fun found =>
          (⟨.of found.1, g.offset, broken⟩, found.2)) := by
  rw [nextToken, skipTrivia_place h]
  cases hgap : skipGap cs with
  | error f => rfl
  | ok found =>
    obtain ⟨broken, behind⟩ := found
    obtain ⟨gap, rfl, -, rfl⟩ := exists_of_skipGap hgap
    have hbehind := isSuffix_of_append h
    show (slice input (place input (gap ++ behind)) (place input behind) >>= _) = _
    rw [slice_place h, pure_bind, peek_place hbehind, pure_bind]
    cases behind with
    | nil => rfl
    | cons g rest =>
      dsimp only [List.head?_cons, Option.map_some]
      rw [kindAt_place hbehind, offset_eq hbehind]
      cases token g rest <;> rfl

/-- The tokens of the rest of a text. -/
lemma exists_tokens_place (h : cs <:+ input.glyphs) (read : List Tok) :
    ∃ broken, input.tokens read (place input cs) =
      ofLexer ((lexemes cs).map fun ts =>
        read ++ ts.map Tok.of ++ [⟨.finish, input.base + byteCount input.src, broken⟩]) := by
  fun_induction lexemes cs generalizing read with
  | case1 cs f hgap =>
    refine ⟨false, ?_⟩
    rw [Input.tokens, nextToken_place h, hgap]
    rfl
  | case2 cs broken hgap =>
    refine ⟨broken, ?_⟩
    rw [Input.tokens, nextToken_place h, hgap, Except.map, List.map_nil, List.append_nil]
    rfl
  | case3 cs broken g rest hgap f htoken =>
    refine ⟨false, ?_⟩
    rw [Input.tokens, nextToken_place h, hgap]
    dsimp only
    rw [htoken]
    rfl
  | case4 cs broken g rest hgap t behind htoken ih =>
    have hrest := (isSuffix_of_skipGap hgap).trans h
    obtain ⟨front, rfl⟩ := exists_of_token htoken
    obtain ⟨broken', ih⟩ := ih (isSuffix_of_append (isSuffix_of_cons hrest))
      (read ++ [⟨.of t, g.offset, broken⟩])
    have hnext : input.tokens read (place input cs) =
        input.tokens (read ++ [⟨.of t, g.offset, broken⟩]) (place input behind) := by
      rw [Input.tokens, nextToken_place h, hgap]
      dsimp only
      rw [htoken]
      cases t <;> rfl
    refine ⟨broken', ?_⟩
    rw [hnext, ih]
    cases lexemes behind with
    | error f => rfl
    | ok more =>
      dsimp only [Except.map]
      rw [List.map_cons, List.append_assoc read]
      rfl

/-- **A text has the tokens that a cursor cuts off**, and behind them its end. -/
theorem exists_tokenize (src : List Char) (base : Nat) :
    ∃ broken, tokenize src base =
      ofLexer ((lexemes (locate base src)).map fun ts =>
        ts.map Tok.of ++ [⟨.finish, base + byteCount src, broken⟩]) := by
  have hall : locate base src <:+ Input.glyphs ⟨src, base⟩ := List.suffix_refl _
  obtain ⟨broken, h⟩ := exists_tokens_place hall []
  have hplace : place ⟨src, base⟩ (locate base src) = 0 := by rw [place, chars_locate, Nat.sub_self]
  rw [hplace] at h
  exact ⟨broken, h⟩

end Tokens

end CardTable.Script.Cursor
