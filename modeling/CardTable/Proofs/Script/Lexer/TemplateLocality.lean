import CardTable.Proofs.Script.Lexer.Locality

set_option autoImplicit false

/-!
# Templates are cut off locally

A template holds stretches of its text, each up to the brace that closes it. In another text with
the same characters it is the same template, and its stretches are the same ones at their offsets
there.

## Main definitions

* `CardTable.Script.PartsTwin` — the same stretches in two texts.
* `CardTable.Script.TemplatesCutOff` — templates, and the stretches in them, are cut off locally.

## Main results

* `CardTable.Script.templatesCutOff` — templates are cut off locally from every text.
-/

namespace CardTable.Script

/-! ## Templates -/

section Templates

variable {i j : Nat}

/-- What stands in front of an offset does not depend on what is behind it. -/
lemma before_append_cons (front behind behind' : List Glyph) (g : Glyph) :
    before g.offset (front ++ g :: behind) = before g.offset (front ++ g :: behind') := by
  induction front with
  | nil => simp [before]
  | cons f front ih =>
    simp only [before, List.cons_append, List.takeWhile_cons] at ih ⊢
    rw [ih]

/-- What stands in front of an offset is the same in two texts. -/
lemma before_twin {cs cs' : List Glyph} (h : Twin i j cs cs') {stop stop' : Nat}
    (hstop : stop + i = stop' + j) : Twin i j (before stop cs) (before stop' cs') := by
  induction h with
  | nil => exact .nil
  | @cons g g' _ _ hg _ ih =>
    have hoffset := hg.offset
    have hiff : g.offset < stop ↔ g'.offset < stop' := by omega
    unfold before at ih ⊢
    by_cases hlt : g.offset < stop
    · rw [List.takeWhile_cons_of_pos (by simpa using hlt),
        List.takeWhile_cons_of_pos (by simpa using hiff.1 hlt)]
      exact .cons hg ih
    · rw [List.takeWhile_cons_of_neg (by simpa using hlt),
        List.takeWhile_cons_of_neg (by simpa using mt hiff.2 hlt)]
      exact .nil

/-- The stretches of a template with the chunks behind them are the same in two texts. -/
abbrev PartsTwin (i j : Nat) : List (Substitution × String) → List (Substitution × String) → Prop :=
  List.Forall₂ fun p p' => p.1.Twin i j p'.1 ∧ p.2 = p'.2

/-- A stretch of a template, by its first character. -/
lemma found?_substitution (start depth : Nat) (g : Glyph) (rest : List Glyph) :
    found? (substitution start depth (g :: rest)) =
      if g.char = '\x7d' then
        match depth with
        | 0 => some (g.offset, rest)
        | depth + 1 => found? (substitution start depth rest)
      else if g.char = '\'' ∨ g.char = '"' then
        (found? (stringLiteral g rest)).bind fun literal =>
          found? (substitution start depth literal.2)
      else if g.char = '\x60' then
        (found? (template g.offset [] rest)).bind fun literal =>
          found? (substitution start depth literal.2)
      else found? (substitution start (if g.char = '\x7b' then depth + 1 else depth) rest) := by
  rw [substitution.eq_def]
  dsimp only
  split
  · split
    · rfl
    · exact found?_within _ _
  split
  · cases stringLiteral g rest with
    | error f => rfl
    | ok literal => exact found?_within _ _
  split
  · cases template g.offset [] rest with
    | error f => rfl
    | ok literal => exact found?_within _ _
  · exact found?_within _ _

/-- The chunk of a template behind which the stretch `source` up to `stop` stands. -/
def consPart (head : String) (source : List Glyph) (stop : Nat)
    (more : (String × List (Substitution × String)) × List Glyph) :
    (String × List (Substitution × String)) × List Glyph :=
  ((head, (⟨source, stop⟩, more.1.1) :: more.1.2), more.2)

/-- A template, by its first character. -/
lemma found?_template (start : Nat) (read : List Char) (g : Glyph) (rest : List Glyph) :
    found? (template start read (g :: rest)) =
      if g.char = '\\' then
        rest.head?.bind fun e => found? (template start (e.char :: '\\' :: read) rest.tail)
      else if g.char = '\x60' then
        (cookChunk start read.reverse).toOption.map fun head => ((head, []), rest)
      else if g.char = '$' ∧ rest.head?.map Glyph.char = some '\x7b' then
        (cookChunk start read.reverse).toOption.bind fun head =>
          (found? (substitution start 0 rest.tail)).bind fun closed =>
            (found? (template start [] closed.2)).map
              (consPart head (before closed.1 rest.tail) closed.1)
      else found? (template start (g.char :: read) rest) := by
  rw [template.eq_def]
  dsimp only
  split
  · cases rest with
    | nil => rfl
    | cons e rest => exact found?_within _ _
  split
  · cases cookChunk start read.reverse <;> rfl
  split
  · cases cookChunk start read.reverse with
    | error f => rfl
    | ok head =>
      cases substitution start 0 rest.tail with
      | error f => rfl
      | ok closed =>
        dsimp only [found?, Except.toOption, Option.bind]
        cases template start [] closed.behind <;> rfl
  · exact found?_within _ _

/-- In another text there is the same template. -/
def TemplateFound (i j : Nat) (head : String) (parts : List (Substitution × String))
    (read : List Char) (cs' behind' : List Glyph) : Prop :=
  ∀ start, ∃ parts', found? (template start read cs') = some ((head, parts'), behind') ∧
    PartsTwin i j parts parts'

/-- In another text there is the same closing brace. -/
def BraceFound (i j depth stop : Nat) (cs' behind' : List Glyph) : Prop :=
  ∀ start, ∃ stop', found? (substitution start depth cs') = some (stop', behind') ∧
    stop + i = stop' + j

/-- Templates, and the stretches in them, are cut off from `cs`, and a stretch ends at its brace. -/
structure TemplatesCutOff (i j : Nat) (cs : List Glyph) : Prop where
  literal {start : Nat} {read : List Char} {head : String}
      {parts : List (Substitution × String)} {behind : List Glyph}
      (h : found? (template start read cs) = some ((head, parts), behind)) :
    CutsOff i j cs behind (TemplateFound i j head parts read)
  stretch {start depth stop : Nat} {behind : List Glyph}
      (h : found? (substitution start depth cs) = some (stop, behind)) :
    CutsOff i j cs behind (BraceFound i j depth stop)
  brace {start depth stop : Nat} {behind : List Glyph}
      (h : found? (substitution start depth cs) = some (stop, behind)) :
    ∃ inside brace, cs = inside ++ brace :: behind ∧ brace.offset = stop

variable {cs : List Glyph}
  (ih : ∀ ds : List Glyph, ds.length < cs.length → TemplatesCutOff i j ds)

include ih in
/-- A stretch of a template is cut off. -/
lemma cutsOff_substitution {start depth stop : Nat} {behind : List Glyph}
    (h : found? (substitution start depth cs) = some (stop, behind)) :
    CutsOff i j cs behind (BraceFound i j depth stop) := by
  cases cs with
  | nil =>
    rw [substitution] at h
    cases h
  | cons g rest =>
  have hrest := ih rest (Nat.lt_succ_self _)
  rw [found?_substitution] at h
  split at h
  · next hbrace =>
    cases depth with
    | zero =>
      obtain ⟨⟨⟩, ⟨⟩⟩ := h
      refine ((CutsOff.refl behind).cons g).mono ?_
      rintro _ behind' - - ⟨g', _, rfl, hg, -, rfl, -⟩ start'
      exact ⟨g'.offset, by rw [found?_substitution, if_pos (hg.char.trans hbrace)], hg.offset⟩
    | succ depth =>
      refine ((hrest.stretch h).cons g).mono ?_
      rintro _ behind' - - ⟨g', rest', rfl, hg, -, hfound⟩ start'
      rw [found?_substitution, if_pos (hg.char.trans hbrace)]
      exact hfound start'
  next hbrace =>
  split at h
  · next hquote =>
    obtain ⟨⟨s, left⟩, hliteral, h⟩ := Option.bind_eq_some_iff.1 h
    have hcut := cutsOff_stringLiteral (i := i) (j := j) hliteral
    have hleft := ih left (Nat.lt_succ_of_le hcut.length_le)
    refine ((hcut.trans (hleft.stretch h)).cons g).mono ?_
    rintro _ behind' - - ⟨g', rest', rfl, hg, -, left', hliteral', hfound⟩ start'
    rw [found?_substitution, hg.char, if_neg hbrace, if_pos hquote, hliteral' g' hg.char]
    exact hfound start'
  next hquote =>
  split at h
  · next htick =>
    obtain ⟨⟨⟨head, parts⟩, left⟩, hliteral, h⟩ := Option.bind_eq_some_iff.1 h
    have hcut := hrest.literal hliteral
    have hleft := ih left (Nat.lt_succ_of_le hcut.length_le)
    refine ((hcut.trans (hleft.stretch h)).cons g).mono ?_
    rintro _ behind' - - ⟨g', rest', rfl, hg, -, left', hliteral', hfound⟩ start'
    obtain ⟨parts', hliteral', -⟩ := hliteral' g'.offset
    rw [found?_substitution, hg.char, if_neg hbrace, if_neg hquote, if_pos htick, hliteral']
    exact hfound start'
  · next htick =>
    refine ((hrest.stretch h).cons g).mono ?_
    rintro _ behind' - - ⟨g', rest', rfl, hg, -, hfound⟩ start'
    rw [found?_substitution, hg.char, if_neg hbrace, if_neg hquote, if_neg htick]
    exact hfound start'

include ih in
/-- A stretch of a template ends at its brace. -/
lemma exists_brace_of_substitution {start depth stop : Nat} {behind : List Glyph}
    (h : found? (substitution start depth cs) = some (stop, behind)) :
    ∃ inside brace, cs = inside ++ brace :: behind ∧ brace.offset = stop := by
  cases cs with
  | nil =>
    rw [substitution] at h
    cases h
  | cons g rest =>
  have hrest := ih rest (Nat.lt_succ_self _)
  -- what is behind a literal ends at the brace, and so does the literal with it
  have hbehind : ∀ {left : List Glyph} {P : List Glyph → List Glyph → Prop},
      CutsOff i j rest left P → found? (substitution start depth left) = some (stop, behind) →
        ∃ inside brace, g :: rest = inside ++ brace :: behind ∧ brace.offset = stop := by
    intro left P hcut hleft
    obtain ⟨inside, brace, hinside, hstop⟩ :=
      (ih left (Nat.lt_succ_of_le hcut.length_le)).brace hleft
    obtain ⟨front, hfront⟩ := hcut.exists_front
    exact ⟨g :: front ++ inside, brace, by simp [hfront, hinside], hstop⟩
  have hstep : ∀ {depth : Nat}, found? (substitution start depth rest) = some (stop, behind) →
      ∃ inside brace, g :: rest = inside ++ brace :: behind ∧ brace.offset = stop := by
    intro depth hfound
    obtain ⟨inside, brace, rfl, hstop⟩ := hrest.brace hfound
    exact ⟨g :: inside, brace, rfl, hstop⟩
  rw [found?_substitution] at h
  split at h
  · cases depth with
    | zero =>
      obtain ⟨⟨⟩, ⟨⟩⟩ := h
      exact ⟨[], g, rfl, rfl⟩
    | succ depth => exact hstep h
  split at h
  · obtain ⟨⟨s, left⟩, hliteral, h⟩ := Option.bind_eq_some_iff.1 h
    exact hbehind (cutsOff_stringLiteral hliteral) h
  split at h
  · obtain ⟨⟨⟨head, parts⟩, left⟩, hliteral, h⟩ := Option.bind_eq_some_iff.1 h
    exact hbehind (hrest.literal hliteral) h
  · exact hstep h

/-- A stretch of a template that is cut off from `cs` is the same in another text. -/
lemma TemplatesCutOff.stretch_twin (hcs : TemplatesCutOff i j cs) {start stop : Nat}
    {behind : List Glyph} (h : found? (substitution start 0 cs) = some (stop, behind)) :
    CutsOff i j cs behind fun cs' behind' => ∀ start', ∃ stop',
      found? (substitution start' 0 cs') = some (stop', behind') ∧
        Substitution.Twin i j ⟨before stop cs, stop⟩ ⟨before stop' cs', stop'⟩ := by
  obtain ⟨inside, brace, rfl, rfl⟩ := hcs.brace h
  obtain ⟨front, hfront, hcut⟩ := hcs.stretch h
  obtain rfl : inside ++ [brace] = front :=
    List.append_cancel_right (by rw [List.append_assoc]; exact hfront)
  refine ⟨inside ++ [brace], hfront, fun front' behind' htwin hahead start' => ?_⟩
  obtain ⟨stop', hfound, hstop⟩ := hcut front' behind' htwin hahead start'
  obtain ⟨inside', last', rfl, hinside, hlast⟩ := exists_append_of_forall₂ htwin
  rcases hlast with - | ⟨hbrace, - | -⟩
  next brace' =>
  refine ⟨stop', hfound, ?_, hstop⟩
  obtain rfl : brace'.offset = stop' := by
    have := hbrace.offset
    omega
  rw [before_append_cons inside behind [] brace, List.append_assoc, List.singleton_append,
    before_append_cons inside' behind' [] brace']
  exact before_twin htwin hstop

/-- Whether a chunk stands for a text does not depend on where its template begins. -/
lemma toOption_cookChunk (start start' : Nat) (chunk : List Char) :
    (cookChunk start' chunk).toOption = (cookChunk start chunk).toOption := by
  unfold cookChunk
  cases unescape (joinLineEnds chunk) <;> rfl

include ih in
/-- A template is cut off. -/
lemma cutsOff_template {start : Nat} {read : List Char} {head : String}
    {parts : List (Substitution × String)} {behind : List Glyph}
    (h : found? (template start read cs) = some ((head, parts), behind)) :
    CutsOff i j cs behind (TemplateFound i j head parts read) := by
  cases cs with
  | nil =>
    rw [template] at h
    cases h
  | cons g rest =>
  rw [found?_template] at h
  split at h
  · next hescape =>
    obtain ⟨e, hhead, h⟩ := Option.bind_eq_some_iff.1 h
    obtain ⟨tail, rfl⟩ : ∃ tail, rest = e :: tail := List.head?_eq_some_iff.1 hhead
    have htail := ih tail (by simp only [List.length_cons]; omega)
    refine (((htail.literal h).cons e).cons g).mono ?_
    rintro _ behind' - - ⟨g', _, rfl, hg, -, e', tail', rfl, he, -, hfound⟩ start'
    obtain ⟨parts', hfound, hparts⟩ := hfound start'
    refine ⟨parts', ?_, hparts⟩
    rw [found?_template, hg.char, if_pos hescape, List.head?_cons, Option.bind_some, he.char]
    exact hfound
  next hescape =>
  split at h
  · next htick =>
    obtain ⟨_, hchunk, ⟨⟨⟩, ⟨⟩⟩⟩ := Option.map_eq_some_iff.1 h
    refine ((CutsOff.refl behind).cons g).mono ?_
    rintro _ behind' - - ⟨g', _, rfl, hg, -, rfl, -⟩ start'
    refine ⟨[], ?_, .nil⟩
    rw [found?_template, hg.char, if_neg hescape, if_pos htick, toOption_cookChunk start, hchunk]
    rfl
  next htick =>
  split at h
  · next hdollar =>
    obtain ⟨brace, tail, rfl⟩ := head?_eq_some_iff.1 hdollar.2
    obtain ⟨_, hchunk, h⟩ := Option.bind_eq_some_iff.1 h
    obtain ⟨⟨stop, left⟩, hstretch, h⟩ := Option.bind_eq_some_iff.1 h
    obtain ⟨⟨⟨chunk, more⟩, _⟩, hmore, ⟨⟩⟩ := Option.map_eq_some_iff.1 h
    have hcut := (ih tail (by simp only [List.length_cons]; omega)).stretch_twin hstretch
    have hleft := ih left (by
      have := hcut.length_le
      simp only [List.length_cons] at this ⊢
      omega)
    refine (((hcut.trans (hleft.literal hmore)).cons ⟨brace, '\x7b'⟩).cons g).mono ?_
    rintro _ behind' - - ⟨g', _, rfl, hg, -, b', tail', rfl, hb, -, left', hstretch', hmore'⟩ start'
    obtain ⟨stop', hstretch', htwin⟩ := hstretch' start'
    obtain ⟨more', hmore', hparts⟩ := hmore' start'
    refine ⟨(⟨before stop' tail', stop'⟩, chunk) :: more', ?_, .cons ⟨htwin, rfl⟩ hparts⟩
    rw [found?_template, hg.char, if_neg hescape, if_neg htick, if_pos ⟨hdollar.1, by simp [hb.char]⟩,
      toOption_cookChunk start, hchunk, Option.bind_some, List.tail_cons, hstretch',
      Option.bind_some, hmore']
    rfl
  · next hdollar =>
    refine (((ih rest (Nat.lt_succ_self _)).literal h).cons g).mono ?_
    rintro _ behind' - - ⟨g', rest', rfl, hg, hahead, hfound⟩ start'
    obtain ⟨parts', hfound, hparts⟩ := hfound start'
    refine ⟨parts', ?_, hparts⟩
    have hbrace := head?_eq_some_iff_of_ahead hahead (c := '\x7b') (by decide)
    rw [found?_template, hg.char, if_neg hescape, if_neg htick, if_neg (by rwa [← hbrace])]
    exact hfound

/-- Templates are cut off from every text. -/
theorem templatesCutOff (cs : List Glyph) : TemplatesCutOff i j cs := by
  induction hn : cs.length using Nat.strongRecOn generalizing cs with
  | _ n ih =>
    subst hn
    have ih' : ∀ ds : List Glyph, ds.length < cs.length → TemplatesCutOff i j ds :=
      fun ds h => ih ds.length h ds rfl
    exact ⟨cutsOff_template ih', cutsOff_substitution ih', exists_brace_of_substitution ih'⟩

end Templates

end CardTable.Script
