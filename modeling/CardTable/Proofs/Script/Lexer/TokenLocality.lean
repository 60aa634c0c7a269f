import CardTable.Proofs.Script.Lexer.NumeralLocality
import CardTable.Proofs.Script.Lexer.TemplateLocality

set_option autoImplicit false

/-!
# Tokens are cut off locally

The first character tells what a token is. Each token is cut off locally, and so is a list of
tokens. A text that stands elsewhere has the same tokens.

## Main definitions

* `CardTable.Script.Begins` — what the first character begins.
* `CardTable.Script.Scans` — the tokens at the front of a text.

## Main results

* `CardTable.Script.token_eq_ok_iff` — the lexer cuts off what the first character begins.
* `CardTable.Script.cutsOff_token` — a token is cut off locally.
* `CardTable.Script.Scans.cutsOff` — a list of tokens is cut off locally.
* `CardTable.Script.exists_lexemes_of_twin` — the tokens of a text that stands elsewhere.
-/

namespace CardTable.Script

/-! ## Tokens -/

section Tokens

variable {i j : Nat} {g : Glyph} {rest behind : List Glyph} {t : Token}

/-- In another text there is the same token. -/
def TokenFound (i j : Nat) (g : Glyph) (t : Token) (rest' behind' : List Glyph) : Prop :=
  ∀ g', g.Twin i j g' → ∃ t', token g' rest' = .ok (t', behind') ∧ t.Twin i j t'

/-- Whether a number begins here. -/
abbrev startsNumber (g : Glyph) (rest : List Glyph) : Prop :=
  g.char.isDigit ∨ g.char = '.' ∧ rest.head?.any (fun g => g.char.isDigit)

/-- A word. -/
lemma token_of_word (hword : startsWord g.char = true) :
    token g rest = .ok (.word (String.ofList
      (g.char :: chars (rest.takeWhile fun g => continuesWord g.char))),
      rest.dropWhile fun g => continuesWord g.char) := by
  unfold token
  rw [if_pos hword]
  rfl

/-- A numeric literal. -/
lemma token_of_number (hword : ¬ startsWord g.char = true) (hnumber : startsNumber g rest)
    {x : Option Double} (h : numeral (g :: rest) = .ok (x, behind)) :
    token g rest = .ok (.number x, behind) := by
  unfold token
  rw [if_neg hword, if_pos hnumber, h]

/-- A string literal. -/
lemma token_of_quote (hword : ¬ startsWord g.char = true) (hnumber : ¬ startsNumber g rest)
    (hquote : g.char = '\'' ∨ g.char = '"') {s : String}
    (h : found? (stringLiteral g rest) = some (s, behind)) :
    token g rest = .ok (.text s, behind) := by
  unfold token
  rw [if_neg hword, if_neg hnumber, if_pos hquote]
  cases hfound : stringLiteral g rest with
  | error f => simp [hfound, found?] at h
  | ok found =>
    rw [hfound] at h
    obtain ⟨⟨⟩, ⟨⟩⟩ := h
    rfl

/-- A template. -/
lemma token_of_tick (htick : g.char = '\x60') {head : String}
    {parts : List (Substitution × String)}
    (h : found? (template g.offset [] rest) = some ((head, parts), behind)) :
    token g rest = .ok (.template head parts, behind) := by
  have hword : ¬ startsWord g.char = true := by rw [htick]; decide
  have hnumber : ¬ startsNumber g rest := by
    rw [startsNumber, htick]
    simp
  have hquote : ¬ (g.char = '\'' ∨ g.char = '"') := by rw [htick]; decide
  unfold token
  rw [if_neg hword, if_neg hnumber, if_neg hquote, if_pos htick]
  cases hfound : template g.offset [] rest with
  | error f =>
    rw [hfound] at h
    cases h
  | ok found =>
    obtain ⟨⟨_, _⟩, _, _⟩ := found
    rw [hfound] at h
    obtain ⟨⟨⟩, ⟨⟩⟩ := h
    rfl

/-- The sign that the character `c` begins in front of what looks like `next`, and how many more
characters belong to it. -/
def signOf (c : Char) (next : List Char) : Sign × Nat :=
  match c, next with
  | '.', ['.', '.'] => (.spread, 2)
  | '?', '.' :: more =>
    if more.head?.any Char.isDigit then (.punct '?', 0) else (.optionalDot, 1)
  | c, _ => (.punct c, 0)

/-- A text by what it looks like. -/
lemma exists_of_ahead_eq_cons {cs : List Glyph} {c : Char} {more : List Char}
    (h : ahead cs = c :: more) : ∃ o rest, cs = ⟨o, c⟩ :: rest ∧ (ahead rest).take 1 = more := by
  cases cs with
  | nil => cases h
  | cons g rest =>
    obtain ⟨o, d⟩ := g
    rw [ahead_cons] at h
    split at h
    · cases h
    · obtain ⟨rfl, rfl⟩ := List.cons.inj h
      exact ⟨o, rest, rfl, rfl⟩

/-- The signs: three dots, a question mark with a dot, or one character. -/
lemma signOf_cases (g : Glyph) (rest : List Glyph) :
    (g.char = '.' ∧ ∃ o o' behind, rest = ⟨o, '.'⟩ :: ⟨o', '.'⟩ :: behind ∧
      signOf g.char (ahead rest) = (.spread, 2)) ∨
    (g.char = '?' ∧ ∃ o behind, rest = ⟨o, '.'⟩ :: behind ∧
      signOf g.char (ahead rest) = (.optionalDot, 1)) ∨
    signOf g.char (ahead rest) = (.punct g.char, 0) := by
  unfold signOf
  split
  · next hg hahead =>
    obtain ⟨o, more, rfl, hmore⟩ := exists_of_ahead_eq_cons hahead
    cases htwo : ahead more with
    | nil => simp [htwo] at hmore
    | cons d _ =>
      obtain rfl : d = '.' := by simpa [htwo] using hmore
      obtain ⟨o', behind, rfl, -⟩ := exists_of_ahead_eq_cons htwo
      exact .inl ⟨hg, o, o', behind, rfl, rfl⟩
  · next hg hahead =>
    obtain ⟨o, behind, rfl, -⟩ := exists_of_ahead_eq_cons hahead
    split
    · exact .inr (.inr (by rw [hg]))
    · exact .inr (.inl ⟨hg, o, behind, rfl, rfl⟩)
  · exact .inr (.inr rfl)

/-- The sign is followed by as many characters as belong to it. -/
lemma signOf_le (g : Glyph) (rest : List Glyph) :
    (signOf g.char (ahead rest)).2 ≤ rest.length := by
  rcases signOf_cases g rest with ⟨-, o, o', behind, rfl, hsign⟩ | ⟨-, o, behind, rfl, hsign⟩ | hsign
  · simp [hsign]
  · simp [hsign]
  · simp [hsign]

/-- A sign. -/
lemma token_of_sign (hword : ¬ startsWord g.char = true) (hnumber : ¬ startsNumber g rest)
    (hquote : ¬ (g.char = '\'' ∨ g.char = '"')) (htick : g.char ≠ '\x60') :
    token g rest = .ok (.sign (signOf g.char (ahead rest)).1,
      rest.drop (signOf g.char (ahead rest)).2) := by
  have hdot : isApart '.' = false := by decide
  unfold token
  rw [if_neg hword, if_neg hnumber, if_neg hquote, if_neg htick]
  split
  · next hg => simp [signOf, hg, ahead_cons, hdot]
  · next o behind hg =>
    have hdigit : ((ahead behind).take 1).head?.any Char.isDigit =
        behind.head?.any fun g => g.char.isDigit := by
      rw [any_head?_eq isDigit_of_isApart]
      cases ahead behind <;> rfl
    split
    · next h => simp [signOf, hg, ahead_cons, hdot, hdigit, h]
    · next h => simp [signOf, hg, ahead_cons, hdot, hdigit, h]
  · next rest _ _ hspread hoptional =>
    have hone : signOf g.char (ahead rest) = (.punct g.char, 0) := by
      unfold signOf
      split
      · next hg hahead =>
        obtain ⟨o, tail, rfl, htake⟩ := exists_of_ahead_eq_cons hahead
        cases htail : ahead tail with
        | nil => simp [htail] at htake
        | cons d more =>
          obtain rfl : d = '.' := by simpa [htail] using htake
          obtain ⟨o', behind, rfl, -⟩ := exists_of_ahead_eq_cons htail
          exact absurd rfl (hspread o o' behind hg)
      · next hg hahead =>
        obtain ⟨o, tail, rfl, -⟩ := exists_of_ahead_eq_cons hahead
        exact absurd rfl (hoptional o tail hg)
      · rfl
    rw [hone]
    rfl

variable (g rest) in
/-- **What the first character begins**: a word, a number, a string literal, a template or a sign,
with the text behind it. -/
inductive Begins : Token → List Glyph → Prop
  | word (hword : startsWord g.char = true) :
      Begins (.word (String.ofList (g.char :: chars (rest.takeWhile fun g => continuesWord g.char))))
        (rest.dropWhile fun g => continuesWord g.char)
  | number {x : Option Double} {behind : List Glyph} (hword : ¬ startsWord g.char = true)
      (hnumber : startsNumber g rest) (h : numeral (g :: rest) = .ok (x, behind)) :
      Begins (.number x) behind
  | quote {s : String} {behind : List Glyph} (hword : ¬ startsWord g.char = true)
      (hnumber : ¬ startsNumber g rest) (hquote : g.char = '\'' ∨ g.char = '"')
      (h : found? (stringLiteral g rest) = some (s, behind)) : Begins (.text s) behind
  | tick {head : String} {parts : List (Substitution × String)} {behind : List Glyph}
      (htick : g.char = '\x60')
      (h : found? (template g.offset [] rest) = some ((head, parts), behind)) :
      Begins (.template head parts) behind
  | sign (hword : ¬ startsWord g.char = true) (hnumber : ¬ startsNumber g rest)
      (hquote : ¬ (g.char = '\'' ∨ g.char = '"')) (htick : g.char ≠ '\x60') :
      Begins (.sign (signOf g.char (ahead rest)).1) (rest.drop (signOf g.char (ahead rest)).2)

/-- **The lexer cuts off what the first character begins.** -/
theorem token_eq_ok_iff : token g rest = .ok (t, behind) ↔ Begins g rest t behind := by
  constructor
  · intro h
    by_cases hword : startsWord g.char = true
    · rw [token_of_word hword] at h
      obtain ⟨⟨⟩, ⟨⟩⟩ := h
      exact .word hword
    by_cases hnumber : startsNumber g rest
    · unfold token at h
      rw [if_neg hword, if_pos hnumber] at h
      split at h
      · cases h
      · next hnumeral =>
        obtain ⟨⟨⟩, ⟨⟩⟩ := h
        exact .number hword hnumber hnumeral
    by_cases hquote : g.char = '\'' ∨ g.char = '"'
    · unfold token at h
      rw [if_neg hword, if_neg hnumber, if_pos hquote] at h
      cases hfound : stringLiteral g rest with
      | error f => simp [hfound, Except.map] at h
      | ok found =>
        rw [hfound] at h
        obtain ⟨⟨⟩, ⟨⟩⟩ := h
        exact .quote hword hnumber hquote (by rw [hfound]; rfl)
    by_cases htick : g.char = '\x60'
    · unfold token at h
      rw [if_neg hword, if_neg hnumber, if_neg hquote, if_pos htick] at h
      cases hfound : template g.offset [] rest with
      | error f => simp [hfound, Except.map] at h
      | ok found =>
        rw [hfound] at h
        obtain ⟨⟨⟩, ⟨⟩⟩ := h
        exact .tick htick (by rw [hfound]; rfl)
    · rw [token_of_sign hword hnumber hquote htick] at h
      obtain ⟨⟨⟩, ⟨⟩⟩ := h
      exact .sign hword hnumber hquote htick
  · intro h
    cases h with
    | word hword => exact token_of_word hword
    | number hword hnumber h => exact token_of_number hword hnumber h
    | quote hword hnumber hquote h => exact token_of_quote hword hnumber hquote h
    | tick htick h => exact token_of_tick htick h
    | sign hword hnumber hquote htick => exact token_of_sign hword hnumber hquote htick

/-- A token is cut off. -/
theorem cutsOff_token (h : token g rest = .ok (t, behind)) :
    CutsOff i j rest behind (TokenFound i j g t) := by
  have hnumberIff : ∀ {rest' : List Glyph} {g' : Glyph}, ahead rest = ahead rest' →
      g'.char = g.char → (startsNumber g' rest' ↔ startsNumber g rest) := by
    intro rest' g' hahead hg
    rw [startsNumber, hg, ← any_head?_of_ahead hahead isDigit_of_isApart]
  cases token_eq_ok_iff.1 h with
  | word hword =>
    refine (CutsOff.dropWhile_of_apart continuesWord_of_isApart rest).mono ?_
    rintro rest' behind' - - ⟨hdrop, htake⟩ g' hg
    refine ⟨_, ?_, .same _ nofun⟩
    rw [token_of_word (by rwa [hg.char]), hdrop, htake, hg.char]
  | number hword hnumber hnumeral =>
    refine ((cutsOff_numeral hnumeral).of_cons (length_of_numeral hnumeral)).mono ?_
    intro rest' behind' hahead _ hnumeral' g' hg
    refine ⟨_, ?_, .same _ nofun⟩
    exact token_of_number (by rwa [hg.char]) ((hnumberIff hahead hg.char).2 hnumber)
      (hnumeral' g' hg)
  | quote hword hnumber hquote hliteral =>
    refine (cutsOff_stringLiteral hliteral).mono ?_
    intro rest' behind' hahead _ hliteral' g' hg
    exact ⟨_, token_of_quote (by rwa [hg.char]) (by rwa [hnumberIff hahead hg.char])
      (by rwa [hg.char]) (hliteral' g' hg.char), .same _ nofun⟩
  | tick htick hliteral =>
    refine ((templatesCutOff rest).literal hliteral).mono ?_
    intro rest' behind' _ _ hliteral' g' hg
    obtain ⟨parts', hliteral', hparts⟩ := hliteral' g'.offset
    exact ⟨_, token_of_tick (hg.char.trans htick) hliteral', .template _ hparts⟩
  | sign hword hnumber hquote htick =>
    refine (CutsOff.drop (signOf_le g rest)).mono ?_
    rintro rest' _ hahead - rfl g' hg
    refine ⟨.sign (signOf g.char (ahead rest)).1, ?_, .same _ nofun⟩
    rw [token_of_sign (by rwa [hg.char]) (by rwa [hnumberIff hahead hg.char]) (by rwa [hg.char])
      (by rwa [hg.char]), hg.char, hahead]

end Tokens

/-! ## Lists of tokens -/

/-- The same token where it stands in two texts. -/
structure Lexeme.Twin (i j : Nat) (t t' : Lexeme) : Prop where
  token : t.token.Twin i j t'.token
  offset : t.offset + i = t'.offset + j
  afterBreak : t'.afterBreak = t.afterBreak

/-- The tokens `ts` are cut off the front of a text, and what is behind them is left. -/
inductive Scans : List Glyph → List Lexeme → List Glyph → Prop
  | nil (cs : List Glyph) : Scans cs [] cs
  | cons {cs rest behind left : List Glyph} {g : Glyph} {broken : Bool} {t : Token}
      {ts : List Lexeme} (hgap : skipGap cs = .ok (broken, g :: rest))
      (htoken : token g rest = .ok (t, behind)) (hscans : Scans behind ts left) :
      Scans cs (⟨t, g.offset, broken, frontOf (g :: rest) behind⟩ :: ts) left

namespace Scans

variable {i j : Nat} {cs cs' mid left : List Glyph} {ts us : List Lexeme}

/-- Some tokens, and those behind them. -/
lemma append (h : Scans cs ts mid) (h' : Scans mid us left) : Scans cs (ts ++ us) left := by
  induction h with
  | nil => exact h'
  | cons hgap htoken _ ih => exact .cons hgap htoken (ih h')

/-- The tokens of a text are those at its front and those behind them. -/
lemma lexemes_eq (h : Scans cs ts left) : lexemes cs = (lexemes left).map (ts ++ ·) := by
  induction h with
  | nil cs => cases h : lexemes cs <;> rfl
  | @cons _ _ _ left _ _ _ _ hgap htoken _ ih =>
    rw [lexemes_of_token hgap htoken, ih]
    cases lexemes left <;> rfl

/-- Behind all tokens of a text there is a gap. -/
lemma of_lexemes (h : lexemes cs = .ok ts) :
    ∃ left broken, Scans cs ts left ∧ skipGap left = .ok (broken, []) := by
  fun_induction lexemes cs generalizing ts with
  | case1 => cases h
  | case2 cs broken hgap =>
    obtain rfl := Except.ok.inj h
    exact ⟨cs, broken, .nil cs, hgap⟩
  | case3 => cases h
  | case4 cs broken g rest hgap t behind htoken ih =>
    rcases hmore : lexemes behind with f | more
    · simp [hmore, Except.map] at h
    · rw [hmore] at h
      obtain rfl := Except.ok.inj h
      obtain ⟨left, broken', hscans, hend⟩ := ih hmore
      exact ⟨left, broken', .cons hgap htoken hscans, hend⟩

/-- **Tokens are cut off locally**: a text with the same characters has the same tokens, whatever is
behind them, if it looks the same.

**Proof sketch.** Induction on the tokens: gaps and tokens are cut off locally (`cutsOff_skipGap`,
`cutsOff_token`), and local cuts may be made one behind the other. -/
theorem cutsOff (h : Scans cs ts left) : CutsOff i j cs left fun cs' left' =>
    ∃ ts', Scans cs' ts' left' ∧ List.Forall₂ (Lexeme.Twin i j) ts ts' := by
  induction h with
  | nil cs =>
    refine (CutsOff.refl cs).mono ?_
    rintro cs' _ - - ⟨rfl, -⟩
    exact ⟨[], .nil cs', .nil⟩
  | cons hgap htoken _ ih =>
    refine ((cutsOff_skipGap hgap).trans ((cutsOff_token htoken).trans ih)).mono ?_
    rintro cs' left' - - ⟨rest', ⟨g', hg, hgap'⟩, behind', htoken', ts', hscans', hts⟩
    obtain ⟨t', htoken', ht⟩ := htoken' g' hg
    exact ⟨_, .cons hgap' htoken' hscans', .cons ⟨ht, hg.offset, rfl⟩ hts⟩

end Scans

/-- **A text that stands elsewhere** has the same tokens there. -/
theorem exists_lexemes_of_twin {i j : Nat} {cs cs' : List Glyph} {ts : List Lexeme}
    (h : lexemes cs = .ok ts) (htwin : Twin i j cs cs') :
    ∃ ts', lexemes cs' = .ok ts' ∧ List.Forall₂ (Lexeme.Twin i j) ts ts' := by
  obtain ⟨left, broken, hscans, hend⟩ := Scans.of_lexemes h
  obtain ⟨front, rfl, hcut⟩ := hscans.cutsOff (i := i) (j := j)
  obtain ⟨front', left', rfl, hfront, hleft⟩ := exists_append_of_forall₂ htwin
  obtain ⟨ts', hscans', hts⟩ := hcut front' left' hfront (ahead_of_twin hleft)
  refine ⟨ts', ?_, hts⟩
  rw [hscans'.lexemes_eq, lexemes_of_end (skipGap_eq_nil_of_twin hend hleft)]
  exact congrArg Except.ok (List.append_nil ts')

end CardTable.Script
