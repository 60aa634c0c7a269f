import CardTable.Proofs.Source.DroppedTypes

set_option autoImplicit false

/-!
# Closing braces

The brace that closes a substitution is looked for character by character, before what stands in
front of it is cut into tokens. The search steps over literals and counts all other braces, those in
comments as well. So it goes on from token to token as long as all that counts stands in tokens.

## Main definitions

* `CardTable.Script.isMark` — the characters that count for the search.
* `CardTable.Script.openBehind`, `CardTable.Script.openBehindAll` — how many braces are open behind
  a token, and behind tokens.
* `CardTable.Script.MarksIn` — all that counts stands in tokens.

## Main results

* `CardTable.Script.found?_substitution_of_token` — the search steps over a token.
* `CardTable.Script.Scans.cutsOff_substitution` — the search goes on from token to token.
-/

namespace CardTable.Script

/-! ## Characters that do not count -/

/-- Whether `c` counts where the end of a substitution is looked for. -/
def isMark (c : Char) : Bool :=
  c ∈ ['\x7b', '\x7d', '\'', '"', '\x60']

/-- Up to `behind` the text `cs` holds nothing that counts. -/
def IsUnmarked (cs behind : List Glyph) : Prop :=
  ∃ front, cs = front ++ behind ∧ ∀ g ∈ front, isMark g.char = false

namespace IsUnmarked

variable {cs mid behind : List Glyph} {g : Glyph}

/-- No characters hold no marks. -/
lemma refl (cs : List Glyph) : IsUnmarked cs cs :=
  ⟨[], rfl, nofun⟩

/-- Two parts without marks hold none together. -/
lemma trans (h : IsUnmarked cs mid) (h' : IsUnmarked mid behind) : IsUnmarked cs behind := by
  obtain ⟨front, rfl, hfront⟩ := h
  obtain ⟨middle, rfl, hmiddle⟩ := h'
  refine ⟨front ++ middle, (List.append_assoc ..).symm, fun g hg => ?_⟩
  rcases List.mem_append.1 hg with hg | hg
  · exact hfront g hg
  · exact hmiddle g hg

/-- A character more that does not count. -/
lemma cons (hg : isMark g.char = false) (h : IsUnmarked cs behind) :
    IsUnmarked (g :: cs) behind := by
  obtain ⟨front, rfl, hfront⟩ := h
  exact ⟨g :: front, rfl, List.forall_mem_cons.2 ⟨hg, hfront⟩⟩

/-- Characters of a kind that does not count. -/
lemma dropWhile {p : Char → Bool} (hp : ∀ c, p c = true → isMark c = false) (cs : List Glyph) :
    IsUnmarked cs (cs.dropWhile fun g => p g.char) :=
  ⟨_, List.takeWhile_append_dropWhile.symm, fun _ hg =>
    hp _ (List.mem_takeWhile_imp (p := fun g : Glyph => p g.char) hg)⟩

end IsUnmarked

/-- What counts is one of five characters, and so has no property that they do not have. -/
lemma isMark_eq_false {p : Char → Bool}
    (hp : ∀ c ∈ ['\x7b', '\x7d', '\'', '"', '\x60'], p c = false) (c : Char) (hc : p c = true) :
    isMark c = false := by
  unfold isMark
  rw [decide_eq_false_iff_not]
  intro hmem
  rw [hp c hmem] at hc
  cases hc

/-- Nothing that counts stands in a word. -/
lemma isMark_of_continuesWord (c : Char) (hc : continuesWord c = true) : isMark c = false :=
  isMark_eq_false (by decide) c hc

/-- Nothing that counts stands among digits. -/
lemma isMark_of_isDigitOrLine (c : Char) (hc : isDigitOrLine c = true) : isMark c = false :=
  isMark_eq_false (by decide) c hc

/-! ### Numbers -/

/-- A fraction holds nothing that counts. -/
lemma isUnmarked_fractionPart (cs : List Glyph) : IsUnmarked cs (fractionPart cs).2 := by
  unfold fractionPart
  split
  · exact .cons rfl (.dropWhile isMark_of_isDigitOrLine _)
  · exact .refl _

/-- The sign of an exponent does not count. -/
lemma isUnmarked_exponentSign (cs : List Glyph) : IsUnmarked cs (exponentSign cs).2 := by
  unfold exponentSign
  split
  · exact .cons rfl (.refl _)
  · exact .cons rfl (.refl _)
  · exact .refl _

/-- An exponent holds nothing that counts. -/
lemma isUnmarked_exponentPart (cs : List Glyph) : IsUnmarked cs (exponentPart cs).2 := by
  unfold exponentPart
  split
  · exact .refl _
  · next g rest =>
    split
    · next hg =>
      have hmark : isMark g.char = false := by rcases hg with hg | hg <;> rw [hg] <;> rfl
      exact .cons hmark ((isUnmarked_exponentSign rest).trans
        (.dropWhile (isMark_eq_false (by decide)) _))
    · exact .refl _

/-- A decimal literal holds nothing that counts. -/
lemma isUnmarked_decimalNumeral {cs behind : List Glyph} {x : Option Double}
    (h : decimalNumeral cs = .ok (x, behind)) : IsUnmarked cs behind := by
  have hparts : IsUnmarked cs (exponentPart (fractionPart (takeDigits isDigitOrLine cs).2).2).2 :=
    (IsUnmarked.dropWhile isMark_of_isDigitOrLine cs).trans
      ((isUnmarked_fractionPart _).trans (isUnmarked_exponentPart _))
  simp only [decimalNumeral] at h
  split at h
  · cases h
  split at h
  · cases h
  split at h
  · cases h
  split at h
  · cases h
  · obtain ⟨-, rfl⟩ := Prod.mk.inj (Except.ok.inj h)
    exact hparts

/-- A numeric literal holds nothing that counts. -/
lemma isUnmarked_numeral {cs behind : List Glyph} {x : Option Double}
    (h : numeral cs = .ok (x, behind)) : IsUnmarked cs behind := by
  unfold numeral at h
  split at h
  · next o letter rest =>
    split at h
    · next radix hradix =>
      have hletter : isMark letter.char = false :=
        isMark_eq_false (p := fun c => (radixOf? c).isSome) (by decide) _ (by simp [hradix])
      simp only [radixNumeral] at h
      split at h
      · split at h
        · cases h
        · obtain ⟨-, rfl⟩ := Prod.mk.inj (Except.ok.inj h)
          exact .cons rfl (.cons hletter
            (.dropWhile (p := fun c => c.isAlphanum || c == '_') (isMark_eq_false (by decide)) rest))
      · cases h
    · exact isUnmarked_decimalNumeral h
  · exact isUnmarked_decimalNumeral h

/-! ## The search steps over tokens -/

section Search

variable {cs behind rest : List Glyph} {g : Glyph} {t : Token} {depth depth' : Nat}

/-- What does not count is stepped over. -/
lemma found?_substitution_of_isUnmarked (h : IsUnmarked cs behind) (start depth : Nat) :
    found? (substitution start depth cs) = found? (substitution start depth behind) := by
  obtain ⟨front, rfl, hfront⟩ := h
  induction front with
  | nil => rfl
  | cons g front ih =>
    obtain ⟨hg, hfront⟩ := List.forall_mem_cons.1 hfront
    simp only [isMark, decide_eq_false_iff_not, List.mem_cons, List.not_mem_nil, or_false,
      not_or] at hg
    obtain ⟨hopen, hclose, hsingle, hdouble, htick⟩ := hg
    rw [List.cons_append, found?_substitution, if_neg hclose, if_neg (by simp [hsingle, hdouble]),
      if_neg htick, if_neg hopen]
    exact ih hfront

/-- How many braces are open behind a token; `none` if it closes one where none is open. -/
def openBehind (depth : Nat) : Token → Option Nat
  | .sign (.punct '\x7b') => some (depth + 1)
  | .sign (.punct '\x7d') => if depth = 0 then none else some (depth - 1)
  | _ => some depth

/-- Another token than a brace leaves as many braces open. -/
lemma openBehind_of_ne (hopen : t ≠ .sign (.punct '\x7b')) (hclose : t ≠ .sign (.punct '\x7d')) :
    openBehind depth t = some depth := by
  unfold openBehind
  split
  · exact absurd rfl hopen
  · exact absurd rfl hclose
  · rfl

/-- The search counts a brace, and steps over every other character that is no quote. -/
lemma found?_substitution_of_punct (hquote : ¬ (g.char = '\'' ∨ g.char = '"'))
    (htick : g.char ≠ '\x60') (hdepth : openBehind depth (.sign (.punct g.char)) = some depth')
    (start : Nat) :
    found? (substitution start depth (g :: rest)) = found? (substitution start depth' rest) := by
  rw [found?_substitution, if_neg hquote, if_neg htick]
  by_cases hclose : g.char = '\x7d'
  · rw [hclose] at hdepth
    rw [if_pos hclose]
    cases depth with
    | zero => cases hdepth
    | succ depth =>
      obtain ⟨⟩ := hdepth
      rfl
  rw [if_neg hclose]
  by_cases hopen : g.char = '\x7b'
  · rw [hopen] at hdepth
    obtain ⟨⟩ := hdepth
    rw [if_pos hopen]
  · rw [openBehind_of_ne (by simp [hopen]) (by simp [hclose])] at hdepth
    obtain ⟨⟩ := hdepth
    rw [if_neg hopen]

/-- **The search steps over a token**: over a brace, over a whole literal, or over characters that
do not count.

**Proof sketch.** By the kind of the token. The search has the same branches as the lexer for
literals; words, numbers and the other signs have no character that counts. -/
theorem found?_substitution_of_token (h : token g rest = .ok (t, behind))
    (hdepth : openBehind depth t = some depth') (start : Nat) :
    found? (substitution start depth (g :: rest)) = found? (substitution start depth' behind) := by
  cases token_eq_ok_iff.1 h with
  | word hword =>
    obtain ⟨⟩ := hdepth
    exact found?_substitution_of_isUnmarked (.cons (isMark_eq_false (by decide) _ hword)
      (.dropWhile isMark_of_continuesWord rest)) start depth
  | number _ _ hnumeral =>
    obtain ⟨⟩ := hdepth
    exact found?_substitution_of_isUnmarked (isUnmarked_numeral hnumeral) start depth
  | quote _ _ hquote hliteral =>
    obtain ⟨⟩ := hdepth
    have hbrace : g.char ≠ '\x7d' := by rcases hquote with hg | hg <;> rw [hg] <;> decide
    rw [found?_substitution, if_neg hbrace, if_pos hquote, hliteral]
    rfl
  | tick htick hliteral =>
    obtain ⟨⟩ := hdepth
    rw [found?_substitution, if_neg (by rw [htick]; decide), if_neg (by rw [htick]; decide),
      if_pos htick, hliteral]
    rfl
  | sign _ _ hquote htick =>
    rcases signOf_cases g rest with ⟨hg, o, o', behind, rfl, hsign⟩ | ⟨hg, o, behind, rfl, hsign⟩ |
      hsign
    · rw [hsign] at hdepth ⊢
      obtain ⟨⟩ := hdepth
      exact found?_substitution_of_isUnmarked
        (.cons (by rw [hg]; rfl) (.cons rfl (.cons rfl (.refl _)))) start depth
    · rw [hsign] at hdepth ⊢
      obtain ⟨⟩ := hdepth
      exact found?_substitution_of_isUnmarked (.cons (by rw [hg]; rfl) (.cons rfl (.refl _)))
        start depth
    · rw [hsign] at hdepth ⊢
      exact found?_substitution_of_punct hquote htick hdepth start

end Search

/-! ## The search goes on from token to token -/

/-- How many braces are open behind tokens. -/
def openBehindAll (depth : Nat) (ts : List Lexeme) : Option Nat :=
  ts.foldlM (fun depth t => openBehind depth t.token) depth

section Tokens

variable {i j : Nat} {cs mid left : List Glyph} {ts us : List Lexeme}

/-- Some tokens, and those behind them. -/
lemma Scans.exists_of_append (h : Scans cs (ts ++ us) left) :
    ∃ mid, Scans cs ts mid ∧ Scans mid us left := by
  induction ts generalizing cs with
  | nil => exact ⟨cs, .nil cs, h⟩
  | cons t ts ih =>
    cases h with
    | cons hgap htoken hscans =>
      obtain ⟨mid, hfront, hbehind⟩ := ih hscans
      exact ⟨mid, .cons hgap htoken hfront, hbehind⟩

/-- The first token stands behind a gap, and the other ones behind it. -/
lemma Scans.cons_cases {t : Lexeme} (h : Scans cs (t :: ts) left) (hcs : IsLocated cs) :
    ∃ gap broken g front behind, cs = gap ++ (g :: front ++ behind) ∧
      skipGap cs = .ok (broken, g :: front ++ behind) ∧ t.source = g :: front ∧
      token g (front ++ behind) = .ok (t.token, behind) ∧ Scans behind ts left := by
  cases h with
  | @cons _ _ behind _ g _ _ _ hgap htoken hscans =>
    obtain ⟨gap, rfl⟩ := isSuffix_of_skipGap hgap
    obtain ⟨front, rfl⟩ := (cutsOff_token (i := 0) (j := 0) htoken).exists_front
    have hlocated : IsLocated (g :: front ++ behind) := hcs.right
    exact ⟨gap, _, g, front, behind, rfl, hgap, frontOf_append hlocated, htoken, hscans⟩

/-- What is left ends the text. -/
lemma Scans.isSuffix (h : Scans cs ts left) : left <:+ cs := by
  obtain ⟨front, rfl⟩ := (h.cutsOff (i := 0) (j := 0)).exists_front
  exact List.suffix_append ..

/-- Tokens are spelt in front of what is left. -/
lemma Scans.mem_source (h : Scans cs ts left) (hcs : IsLocated cs) {t : Lexeme} (ht : t ∈ ts)
    {x : Glyph} (hx : x ∈ t.source) : x ∈ cs ∧ x ∉ left := by
  induction ts generalizing cs with
  | nil => cases ht
  | cons first ts ih =>
    obtain ⟨gap, broken, g, front, behind, rfl, -, hsource, -, hscans⟩ := h.cons_cases hcs
    rcases List.mem_cons.1 ht with rfl | ht
    · rw [hsource] at hx
      refine ⟨List.mem_append_right _ (List.mem_append_left _ hx), fun hleft => ?_⟩
      exact Nat.lt_irrefl _ (hcs.right.lt hx (hscans.isSuffix.mem hleft))
    · obtain ⟨hmem, hleft⟩ := ih hscans hcs.right.right ht
      exact ⟨List.mem_append_right _ (List.mem_append_right _ hmem), hleft⟩

/-- All that counts up to `left` in the text `cs` stands in the tokens `ts`. -/
def MarksIn (ts : List Lexeme) (cs left : List Glyph) : Prop :=
  ∀ x ∈ cs, isMark x.char = true → x ∉ left → ∃ t ∈ ts, x ∈ t.source

/-- The same token in two texts leaves as many braces open. -/
lemma openBehind_of_twin {depth : Nat} {t t' : Token} (h : t.Twin i j t') :
    openBehind depth t' = openBehind depth t := by
  cases h <;> rfl

/-- A front that holds nothing that counts holds nothing that counts elsewhere either. -/
lemma IsUnmarked.of_twin {front front' : List Glyph} (hfront : ∀ x ∈ front, isMark x.char = false)
    (htwin : Twin i j front front') (behind' : List Glyph) :
    IsUnmarked (front' ++ behind') behind' := by
  refine ⟨front', rfl, fun x' hx' => ?_⟩
  obtain ⟨x, hx, hchar, -⟩ := exists_of_mem_twin htwin hx'
  rw [hchar]
  exact hfront x hx

/-- **The search goes on from token to token**, wherever they stand, if all that counts stands in
them.

**Proof sketch.** Induction on the tokens. The gap in front of a token has no character that counts,
since all of these stand in tokens, the search steps over the token
(`found?_substitution_of_token`), and goes on behind it at the depth that the token leaves. -/
theorem Scans.cutsOff_substitution (h : Scans cs ts left) (hcs : IsLocated cs)
    (hmarks : MarksIn ts cs left) {depth depth' : Nat}
    (hdepth : openBehindAll depth ts = some depth') :
    CutsOff i j cs left fun cs' left' => ∀ start,
      found? (substitution start depth cs') = found? (substitution start depth' left') := by
  induction ts generalizing cs depth with
  | nil =>
    cases h
    obtain ⟨⟩ := hdepth
    refine (CutsOff.refl _).mono ?_
    rintro cs' _ - - ⟨rfl, -⟩ start
    rfl
  | cons t ts ih =>
    obtain ⟨middle, hstep, hrest⟩ := Option.bind_eq_some_iff.1 hdepth
    obtain ⟨gap, broken, g, front, behind, rfl, -, hsource, htoken, hscans⟩ := h.cons_cases hcs
    have hgap : ∀ x ∈ gap, isMark x.char = false := by
      intro x hx
      by_contra hmark
      have hapart : x ∉ g :: front ++ behind := fun hx' => Nat.lt_irrefl _ (hcs.lt hx hx')
      obtain ⟨u, hu, hx'⟩ := hmarks x (List.mem_append_left _ hx) (by simpa using hmark)
        fun hleft => hapart (List.mem_append_right _ (hscans.isSuffix.mem hleft))
      rcases List.mem_cons.1 hu with rfl | hu
      · exact hapart (List.mem_append_left _ (hsource ▸ hx'))
      · exact hapart (List.mem_append_right _ (hscans.mem_source hcs.right.right hu hx').1)
    have hbehind : MarksIn ts behind left := by
      intro x hx hmark hleft
      obtain ⟨u, hu, hx'⟩ := hmarks x
        (List.mem_append_right _ (List.mem_append_right _ hx)) hmark hleft
      rcases List.mem_cons.1 hu with rfl | hu
      · exact absurd (hcs.right.lt (hsource ▸ hx') hx) (Nat.lt_irrefl _)
      · exact ⟨u, hu, hx'⟩
    have hskip : CutsOff i j (gap ++ (g :: front ++ behind)) (g :: front ++ behind) IsUnmarked :=
      ⟨gap, rfl, fun _ behind' htwin _ => .of_twin hgap htwin behind'⟩
    refine (hskip.trans (((cutsOff_token htoken).trans
      (ih hscans hcs.right.right hbehind hrest)).cons g)).mono ?_
    rintro cs' left' - - ⟨_, hgap', g', rest', rfl, hg, -, behind', htoken', hfound⟩ start
    obtain ⟨t', htoken', ht⟩ := htoken' g' hg
    rw [found?_substitution_of_isUnmarked hgap',
      found?_substitution_of_token htoken' ((openBehind_of_twin ht).trans hstep)]
    exact hfound start

end Tokens

end CardTable.Script
