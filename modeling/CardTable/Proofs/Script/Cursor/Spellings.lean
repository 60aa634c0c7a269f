import CardTable.Proofs.Script.Cursor.Stretches

set_option autoImplicit false

/-!
# Texts and the tokens that spell them

A text that is cut into tokens can be put together again: each token is spelt at its offset, in a
way that depends on what it is, and between the tokens there are gaps. So no character gets lost and
all offsets are those of the text, also the offsets of tokens in stretches of templates in
stretches.

## Main definitions

* `CardTable.Script.Cursor.Spells` — a text that spells a token.
* `CardTable.Script.Cursor.Tiles` — tokens side by side in a text.
* `CardTable.Script.Cursor.HoldsStretch` — a stretch between its braces in a text.
* `CardTable.Script.Cursor.IsLossless` — what the tokens of a text say about it.

## Main results

* `CardTable.Script.Cursor.exists_spells` — every token is spelt where it stands.
* `CardTable.Script.Cursor.tiles_of_tokenize` — a text is tiled with its tokens.
* `CardTable.Script.Cursor.IsStretch.exists_spelling` — the tokens of stretches at any depth.
* `CardTable.Script.Cursor.isLossless_of_tokenize` — nothing is lost, and all offsets are true.
-/

namespace CardTable.Script.Cursor

open Text (byteCount byteCount_append)

/-! ## Spellings -/

/-- The body of a string literal: without a backslash in front, neither the quote stands in it nor
an end of its line. -/
inductive IsQuoted (quote : Char) : List Char → Prop
  | nil : IsQuoted quote []
  | plain {c : Char} {cs : List Char} (hescape : c ≠ '\\') (hquote : c ≠ quote)
      (hline : c ≠ '\n' ∧ c ≠ '\r') (h : IsQuoted quote cs) : IsQuoted quote (c :: cs)
  | escaped {c : Char} {cs : List Char} (h : IsQuoted quote cs) : IsQuoted quote ('\\' :: c :: cs)
  /-- A line that is joined over two characters. -/
  | joined {cs : List Char} (h : IsQuoted quote cs) : IsQuoted quote ('\\' :: '\r' :: '\n' :: cs)

/-- The text of a template that begins at an offset behind its backtick, with its chunks and with
its stretches where they stand. -/
inductive SpellsTemplate : Nat → List Char → List String → List (Nat × List Char) → Prop
  | last {offset : Nat} {raw chunk : List Char} (hraw : IsChunk raw)
      (hchunk : unescape (joinLineEnds raw) = .ok chunk) :
      SpellsTemplate offset (raw ++ ['\x60']) [String.ofList chunk] []
  | stretch {offset : Nat} {raw chunk source text : List Char} {chunks : List String}
      {stretches : List (Nat × List Char)} (hraw : IsChunk raw)
      (hchunk : unescape (joinLineEnds raw) = .ok chunk)
      (hrest : SpellsTemplate (offset + byteCount raw + 2 + byteCount source + 1) text chunks
        stretches) :
      SpellsTemplate offset (raw ++ '$' :: '\x7b' :: (source ++ '\x7d' :: text))
        (String.ofList chunk :: chunks) ((offset + byteCount raw + 2, source) :: stretches)

/-- The text spells a token that begins at an offset. -/
inductive Spells : Kind → Nat → List Char → Prop
  | word {offset : Nat} {c : Char} {cs : List Char} (hc : startsWord c = true)
      (hcs : ∀ d ∈ cs, continuesWord d = true) :
      Spells (.word (String.ofList (c :: cs))) offset (c :: cs)
  | text {offset : Nat} {quote : Char} {body text : List Char} (hquote : quote = '\'' ∨ quote = '"')
      (hbody : IsQuoted quote body) (htext : unescape body = .ok text) :
      Spells (.text (String.ofList text)) offset (quote :: body ++ [quote])
  /-- A decimal literal. -/
  | decimal {offset : Nat} {x : Option Double} {cs : List Char} (hcs : decimalValue? cs = some x) :
      Spells (.number x) offset cs
  /-- A literal in a base that its second character announces. -/
  | radix {offset radix n : Nat} {letter : Char} {digits : List Char}
      (hradix : announced? (some '0') (some letter) = some radix)
      (hdigits : wordValue? radix (digits.filter (· != '_')) = some n) :
      Spells (.number (Double.ofInt? n)) offset ('0' :: letter :: digits)
  | template {offset : Nat} {cs : List Char} {chunks : List String}
      {stretches : List (Nat × List Char)} (h : SpellsTemplate (offset + 1) cs chunks stretches) :
      Spells (.template chunks stretches) offset ('\x60' :: cs)
  | spread {offset : Nat} : Spells (.sign .spread) offset ['.', '.', '.']
  | optionalDot {offset : Nat} : Spells (.sign .optionalDot) offset ['?', '.']
  | punct {offset : Nat} (c : Char) : Spells (.sign (.punct c)) offset [c]
  /-- The end of a text. -/
  | finish {offset : Nat} : Spells .finish offset []

section Spellings

variable {g : Glyph} {cs behind : List Glyph} {t : Script.Token}

/-- The body of a string stands between quotes. -/
lemma isQuoted_of_stringBody? {quote : Char} {body : List Char}
    (h : stringBody? quote cs = some (body, behind)) : IsQuoted quote body := by
  fun_induction stringBody? quote cs generalizing body with
  | case1 => cases h
  | case2 => cases h
  | case3 g hescape o o' rest ih =>
    obtain ⟨⟨inside, _⟩, hrest, ⟨⟩⟩ := Option.map_eq_some_iff.1 h
    exact .joined (ih hrest)
  | case4 g hescape e rest _ ih =>
    obtain ⟨⟨inside, _⟩, hrest, ⟨⟩⟩ := Option.map_eq_some_iff.1 h
    exact .escaped (ih hrest)
  | case5 =>
    obtain ⟨⟨⟩⟩ := h
    exact .nil
  | case6 => cases h
  | case7 g rest hescape hquote hline ih =>
    obtain ⟨⟨inside, _⟩, hrest, ⟨⟩⟩ := Option.map_eq_some_iff.1 h
    exact .plain hescape hquote (not_or.1 hline) (ih hrest)

/-- A piece of a template is its spelling with the escapes resolved. -/
lemma exists_of_cookChunk {start : Nat} {raw : List Char} {chunk : String}
    (h : cookChunk start raw = .ok chunk) :
    ∃ text, unescape (joinLineEnds raw) = .ok text ∧ chunk = String.ofList text := by
  unfold cookChunk at h
  split at h
  · cases h
  · next text htext => exact ⟨text, htext, (Except.ok.inj h).symm⟩

/-- Both parts of a text stand where it stands, one behind the other. -/
lemma eq_locate_of_append {o : Nat} (front : List Glyph)
    (h : front ++ cs = locate o (chars (front ++ cs))) :
    front = locate o (chars front) ∧ cs = locate (o + byteCount (chars front)) (chars cs) := by
  rw [chars_append, locate_append] at h
  exact List.append_inj h (by rw [length_locate, chars, List.length_map])

/-- The text of a template that stands in a text. -/
lemma exists_spellsTemplate {start o : Nat} {head : String} {parts : List (Substitution × String)}
    (h : IsTemplate start [] cs head parts behind) (hcs : cs = locate o (chars cs)) :
    ∃ front, cs = front ++ behind ∧
      SpellsTemplate o (chars front) (chunksOf head parts) (stretchesOf parts) := by
  generalize hread : ([] : List Char) = read at h
  induction h generalizing o with
  | @last read raw tick chunk behind hraw hchunk =>
    subst hread
    refine ⟨raw ++ [⟨tick, '\x60'⟩], by simp, ?_⟩
    obtain ⟨text, htext, rfl⟩ := exists_of_cookChunk hchunk
    rw [chars_append]
    exact .last hraw htext
  | @stretch read raw source rest behind dollar brace stop chunk next parts hraw hchunk hrest ih =>
    subst hread
    obtain ⟨text, htext, rfl⟩ := exists_of_cookChunk hchunk
    obtain ⟨-, hopen⟩ := eq_locate_of_append raw hcs
    obtain ⟨-, hinside⟩ := eq_locate_of_append [⟨dollar, '$'⟩, ⟨brace, '\x7b'⟩] hopen
    obtain ⟨hsource, hclose⟩ := eq_locate_of_append source hinside
    obtain ⟨-, hbehind⟩ := eq_locate_of_append [⟨stop, '\x7d'⟩] hclose
    obtain ⟨front, rfl, hfront⟩ := ih hbehind rfl
    refine ⟨raw ++ ⟨dollar, '$'⟩ :: ⟨brace, '\x7b'⟩ :: (source ++ ⟨stop, '\x7d'⟩ :: front),
      by simp, ?_⟩
    have hstop : stop = o + byteCount (chars raw) + 2 + byteCount (chars source) :=
      congrArg Glyph.offset (List.cons.inj hclose).1
    have hstart : Cursor.start ⟨source, stop⟩ = o + byteCount (chars raw) + 2 := by
      rw [Cursor.start, hstop, Nat.add_sub_cancel]
    rw [chars_append, chars_cons, chars_cons, chars_append, chars_cons, chunksOf, List.map_cons,
      stretchesOf, List.map_cons, hstart]
    exact .stretch hraw htext hfront

/-- A string literal. -/
lemma exists_spells_text {s : String} (hquote : g.char = '\'' ∨ g.char = '"')
    (h : found? (stringLiteral g cs) = some (s, behind)) (offset : Nat) :
    ∃ front, g :: cs = front ++ behind ∧ Spells (.text s) offset (chars front) := by
  rw [found?_stringLiteral] at h
  obtain ⟨⟨body, left⟩, hbody, htext⟩ := Option.bind_eq_some_iff.1 h
  obtain ⟨text, hunescape, ⟨⟩⟩ := Option.map_eq_some_iff.1 htext
  obtain ⟨inside, close, rfl, rfl, hclose⟩ := exists_of_stringBody? hbody
  refine ⟨g :: inside ++ [close], by simp, ?_⟩
  rw [chars_append, chars_cons, chars_cons, hclose]
  exact .text hquote (isQuoted_of_stringBody? hbody) (eq_ok_of_toOption hunescape)

/-- A template. -/
lemma exists_spells_template {head : String} {parts : List (Substitution × String)}
    (hcs : IsLocated (g :: cs)) (htick : g.char = '\x60')
    (h : found? (Script.template g.offset [] cs) = some ((head, parts), behind)) :
    ∃ front, g :: cs = front ++ behind ∧
      Spells (.template (chunksOf head parts) (stretchesOf parts)) g.offset (chars front) := by
  have htemplate := isTemplate_of_found? hcs.tail h
  obtain ⟨o, ho⟩ := hcs
  obtain ⟨hg, hbehind⟩ := List.cons.inj ho
  have hsize : g.offset + 1 = o + g.char.utf8Size := by
    rw [htick, hg]
    rfl
  obtain ⟨front, rfl, hspells⟩ := exists_spellsTemplate htemplate (o := g.offset + 1)
    (by rw [hsize]; exact hbehind)
  refine ⟨g :: front, rfl, ?_⟩
  rw [chars_cons, htick]
  exact .template hspells

/-- A numeric literal. -/
lemma exists_spells_number (hcs : IsLocated cs) {x : Option Double}
    (h : numeral cs = .ok (x, behind)) (offset : Nat) :
    ∃ front, cs = front ++ behind ∧ Spells (.number x) offset (chars front) := by
  rw [numeral_eq_announced] at h
  split at h
  · next radix hradix =>
    obtain ⟨o, letter, rest, rfl, -⟩ := exists_of_announced? hradix
    rw [List.drop_succ_cons, List.drop_succ_cons, List.drop_zero, radixNumeral_eq] at h
    split at h
    · next n hn =>
      obtain ⟨⟨⟩, rfl⟩ := h
      refine
        ⟨⟨o, '0'⟩ :: letter :: rest.takeWhile fun g => g.char.isAlphanum || g.char == '_', ?_, ?_⟩
      · simp only [takeDigits, List.cons_append, List.takeWhile_append_dropWhile]
      · exact .radix hradix hn
    · cases h
  · obtain ⟨front, left, rfl, -, heq⟩ := exists_decimalNumeral hcs
    rw [heq] at h
    split at h
    · cases h
    split at h
    · cases h
    split at h
    · next y hy =>
      obtain ⟨⟨⟩, ⟨⟩⟩ := h
      exact ⟨front, rfl, .decimal hy⟩
    · cases h

/-- **Every token is spelt** where it stands.

**Proof sketch.** By the kind of the token: what was cut off is the stretch of the text in front of
the cursor behind it. -/
theorem exists_spells (hcs : IsLocated (g :: cs)) (h : token g cs = .ok (t, behind)) :
    ∃ front, g :: cs = front ++ behind ∧ Spells (.of t) g.offset (chars front) := by
  cases token_eq_ok_iff.1 h with
  | word hword =>
    refine ⟨g :: cs.takeWhile fun g => continuesWord g.char, ?_, ?_⟩
    · rw [List.cons_append, List.takeWhile_append_dropWhile]
    · refine .word hword fun d hd => ?_
      obtain ⟨x, hx, rfl⟩ := List.mem_map.1 hd
      exact List.mem_takeWhile_imp (p := fun g : Glyph => continuesWord g.char) hx
  | number _ _ hnumeral => exact exists_spells_number hcs hnumeral g.offset
  | quote _ _ hquote hliteral => exact exists_spells_text hquote hliteral g.offset
  | tick htick hliteral => exact exists_spells_template hcs htick hliteral
  | sign =>
    rcases signOf_cases g cs with ⟨hg, o, o', behind, rfl, hsign⟩ | ⟨hg, o, behind, rfl, hsign⟩ |
      hsign
    · rw [hsign]
      exact ⟨[g, _, _], rfl, by rw [chars_cons, hg]; exact .spread⟩
    · rw [hsign]
      exact ⟨[g, _], rfl, by rw [chars_cons, hg]; exact .optionalDot⟩
    · rw [hsign]
      exact ⟨[g], rfl, .punct g.char⟩

end Spellings

/-! ## Tokens side by side -/

/-- The tokens stand side by side in a text that begins at an offset, with only white space, U+FEFF
and complete comments between them, and behind them there is the end of the text. -/
inductive Tiles : Nat → List Char → List Tok → Prop
  | finish {offset : Nat} {gap : List Char} {broken : Bool} (hgap : IsTrivia [] gap) :
      Tiles offset gap [⟨.finish, offset + byteCount gap, broken⟩]
  | token {offset : Nat} {gap spelling rest : List Char} {kind : Kind} {toks : List Tok}
      (hgap : IsTrivia (spelling ++ rest) gap) (hkind : kind ≠ .finish)
      (hspelling : Spells kind (offset + byteCount gap) spelling)
      (hrest : Tiles (offset + byteCount gap + byteCount spelling) rest toks) :
      Tiles offset (gap ++ (spelling ++ rest))
        (⟨kind, offset + byteCount gap, gap.any isBreak⟩ :: toks)

section Tiles

variable {src : List Char} {base : Nat} {toks : List Tok}

/-- A token other than the end has a spelling. -/
lemma Spells.pos {kind : Kind} {offset : Nat} {spelling : List Char}
    (h : Spells kind offset spelling) (hkind : kind ≠ .finish) : 0 < byteCount spelling := by
  have hpos : ∀ (c : Char) (cs : List Char), 0 < byteCount (c :: cs) := by
    intro c cs
    have := c.utf8Size_pos
    rw [byteCount]
    omega
  cases h with
  | decimal hcs =>
    cases spelling with
    | nil => cases hcs
    | cons c cs => exact hpos c cs
  | finish => exact absurd rfl hkind
  | _ => exact hpos _ _

/-- The tokens of a text lie behind its beginning. -/
lemma Tiles.le_offset (h : Tiles base src toks) : ∀ t ∈ toks, base ≤ t.offset := by
  induction h with
  | finish => exact List.forall_mem_singleton.2 (Nat.le_add_right _ _)
  | token hgap hkind hspelling hrest ih =>
    refine List.forall_mem_cons.2 ⟨Nat.le_add_right _ _, fun t ht => ?_⟩
    have := ih t ht
    omega

/-- **The offsets of tokens ascend.** -/
theorem Tiles.pairwise (h : Tiles base src toks) : toks.Pairwise (·.offset < ·.offset) := by
  induction h with
  | finish => exact List.pairwise_singleton _ _
  | token hgap hkind hspelling hrest ih =>
    refine List.pairwise_cons.2 ⟨fun t ht => ?_, ih⟩
    have := hrest.le_offset t ht
    have := hspelling.pos hkind
    dsimp only
    omega

/-- Only the last token is the end. -/
lemma Tiles.ne_finish (h : Tiles base src toks) : ∀ t ∈ toks.dropLast, t.kind ≠ .finish := by
  induction h with
  | finish => nofun
  | @token _ _ _ _ _ toks hgap hkind hspelling hrest ih =>
    cases toks with
    | nil => nofun
    | cons u toks => exact List.forall_mem_cons.2 ⟨hkind, ih⟩

/-- Every token is spelt at its offset. -/
theorem Tiles.exists_spelling (h : Tiles base src toks) {t : Tok} (ht : t ∈ toks) :
    ∃ front spelling left, src = front ++ (spelling ++ left) ∧ t.offset = base + byteCount front ∧
      Spells t.kind t.offset spelling := by
  induction h with
  | @finish offset gap broken hgap =>
    obtain rfl := List.mem_singleton.1 ht
    exact ⟨gap, [], [], by simp, rfl, .finish⟩
  | @token offset gap spelling rest kind toks hgap hkind hspelling hrest ih =>
    rcases List.mem_cons.1 ht with rfl | hmem
    · exact ⟨gap, spelling, rest, rfl, rfl, hspelling⟩
    · obtain ⟨front, spelling', left, rfl, hoffset, hspells⟩ := ih hmem
      refine ⟨gap ++ (spelling ++ front), spelling', left, by simp only [List.append_assoc], ?_,
        hspells⟩
      rw [hoffset, byteCount_append, byteCount_append]
      omega

/-- **A text is tiled** with its tokens.

**Proof sketch.** Strong induction on the length of the text. The gap and the token in front of it
are spelt there (`exists_of_skipGap`, `exists_spells`), and the rest is tiled from the offset behind
them. -/
theorem tiles_of_lexemes {cs : List Glyph} {ts : List Lexeme} (hcs : cs = locate base (chars cs))
    (h : lexemes cs = .ok ts) (broken : Bool) : Tiles base (chars cs)
      (ts.map Tok.of ++ [⟨.finish, base + byteCount (chars cs), broken⟩]) := by
  induction hn : cs.length using Nat.strongRecOn generalizing cs ts base with
  | _ n ih =>
  subst hn
  rcases lexemes_cases h with ⟨flag, hgap, rfl⟩ |
    ⟨flag, g, rest, t, behind, more, hgap, htoken, hmore, rfl⟩
  · obtain ⟨gap, rfl, htrivia, -⟩ := exists_of_skipGap hgap
    rw [List.append_nil]
    exact .finish htrivia
  · obtain ⟨gap, rfl, htrivia, rfl⟩ := exists_of_skipGap hgap
    obtain ⟨-, htext⟩ := eq_locate_of_append gap hcs
    have hoffset : g.offset = base + byteCount (chars gap) :=
      congrArg Glyph.offset (List.cons.inj htext).1
    obtain ⟨front, hfront, hspells⟩ := exists_spells ⟨_, htext⟩ htoken
    have hlength := length_of_token htoken
    rw [hfront] at htext htrivia hgap h hcs ih ⊢
    obtain ⟨-, hbehind⟩ := eq_locate_of_append front htext
    have hlater := ih behind.length (by rw [List.length_append, ← hfront]; omega) hbehind hmore rfl
    rw [hoffset] at hspells
    rw [chars_append] at htrivia
    have htile := Tiles.token htrivia (by cases t <;> nofun) hspells hlater
    rw [chars_append, chars_append, byteCount_append, byteCount_append, List.map_cons,
      List.cons_append, Tok.of, hoffset]
    simpa only [Nat.add_assoc] using htile

end Tiles

/-! ## Stretches in place -/

/-- The stretch stands between its braces in a text that begins at `base`. -/
def HoldsStretch (src : List Char) (base : Nat) (stretch : Nat × List Char) : Prop :=
  ∃ front left, src = front ++ '$' :: '\x7b' :: (stretch.2 ++ '\x7d' :: left) ∧
    stretch.1 = base + byteCount front + 2

section Stretches

variable {src text : List Char} {base : Nat} {toks : List Tok} {chunks : List String}
  {stretches : List (Nat × List Char)} {stretch : Nat × List Char}

/-- A text holds the stretches of its parts. -/
lemma HoldsStretch.append (h : HoldsStretch text (base + byteCount src) stretch)
    (left : List Char) : HoldsStretch (src ++ (text ++ left)) base stretch := by
  obtain ⟨front, rest, rfl, hoffset⟩ := h
  refine ⟨src ++ front, rest ++ left, by simp, ?_⟩
  rw [hoffset, byteCount_append]
  omega

/-- A template has a chunk more than stretches. -/
lemma SpellsTemplate.length_eq (h : SpellsTemplate base text chunks stretches) :
    chunks.length = stretches.length + 1 := by
  induction h with
  | last => rfl
  | stretch _ _ _ ih => rw [List.length_cons, List.length_cons, ih]

/-- The stretches of a template stand in it. -/
lemma SpellsTemplate.holdsStretch (h : SpellsTemplate base text chunks stretches) :
    ∀ stretch ∈ stretches, HoldsStretch text base stretch := by
  induction h with
  | last => nofun
  | @stretch offset raw chunk source text chunks stretches hraw hchunk hrest ih =>
    refine List.forall_mem_cons.2 ⟨⟨raw, text, rfl, rfl⟩, fun stretch hmem => ?_⟩
    have hbytes : byteCount (raw ++ '$' :: '\x7b' :: (source ++ ['\x7d'])) =
        byteCount raw + 2 + byteCount source + 1 := by
      rw [byteCount_append, byteCount, byteCount, byteCount_append]
      change _ + (1 + (1 + (_ + 1))) = _
      omega
    have hlater : HoldsStretch text
        (offset + byteCount (raw ++ '$' :: '\x7b' :: (source ++ ['\x7d']))) stretch := by
      rw [hbytes]
      simpa only [Nat.add_assoc] using ih stretch hmem
    simpa using hlater.append []

/-- The stretches of the templates in a text stand in the text. -/
lemma Tiles.holdsStretch (h : Tiles base src toks) {t : Tok} (ht : t ∈ toks)
    (hkind : t.kind = .template chunks stretches) :
    chunks.length = stretches.length + 1 ∧
      ∀ stretch ∈ stretches, HoldsStretch src base stretch := by
  obtain ⟨front, spelling, left, rfl, hoffset, hspells⟩ := h.exists_spelling ht
  rw [hkind] at hspells
  cases hspells with
  | @template offset cs _ _ htemplate =>
    refine ⟨htemplate.length_eq, fun stretch hmem => ?_⟩
    have hbytes : t.offset + 1 = base + byteCount (front ++ ['\x60']) := by
      rw [hoffset, byteCount_append]
      exact Nat.add_assoc ..
    rw [hbytes] at htemplate
    simpa using (htemplate.holdsStretch stretch hmem).append left

/-- The tokens of a text are its tiles. -/
theorem tiles_of_tokenize (h : tokenize src base = pure toks) : Tiles base src toks := by
  obtain ⟨ts, broken, hts, rfl⟩ := exists_lexemes_of_tokenize h
  have htiles := tiles_of_lexemes (by rw [chars_locate]) hts broken
  rwa [chars_locate] at htiles

/-- **A stretch at any depth** stands in the whole text at its offset. -/
theorem IsStretch.exists_eq (h : IsStretch (base, src) stretch) :
    ∃ front left, src = front ++ (stretch.2 ++ left) ∧ stretch.1 = base + byteCount front := by
  induction h with
  | self => exact ⟨[], [], by simp, rfl⟩
  | inside _ htoks ht hkind hmem ih =>
    obtain ⟨front, left, rfl, hoffset⟩ := ih
    obtain ⟨-, hholds⟩ := (tiles_of_tokenize htoks).holdsStretch ht hkind
    obtain ⟨front', left', hsource, hoffset'⟩ := hholds _ hmem
    refine ⟨front ++ (front' ++ ['$', '\x7b']), '\x7d' :: left' ++ left, by simp [hsource], ?_⟩
    rw [hoffset', hoffset, byteCount_append, byteCount_append]
    exact (Nat.add_assoc ..).trans (Nat.add_assoc ..)

/-- **The tokens of a stretch at any depth** are spelt at their offsets in the whole text. -/
theorem IsStretch.exists_spelling (h : IsStretch (base, src) stretch)
    (htoks : tokenize stretch.2 stretch.1 = pure toks) {t : Tok} (ht : t ∈ toks) :
    ∃ front spelling left, src = front ++ (spelling ++ left) ∧ t.offset = base + byteCount front ∧
      Spells t.kind t.offset spelling := by
  obtain ⟨front, left, hsrc, hstart⟩ := h.exists_eq
  obtain ⟨front', spelling, left', hsource, hoffset, hspells⟩ :=
    (tiles_of_tokenize htoks).exists_spelling ht
  refine ⟨front ++ front', spelling, left' ++ left, by simp [hsrc, hsource], ?_, hspells⟩
  rw [hoffset, hstart, byteCount_append, Nat.add_assoc]

end Stretches

/-! ## Texts and their tokens -/

/-- What the tokens of a text say about it. -/
structure IsLossless (src : List Char) (base : Nat) (toks : List Tok) : Prop where
  /-- They are those of the text as a list, and behind them its end. -/
  lexed : ∃ ts broken, lexemes (locate base src) = .ok ts ∧
    toks = ts.map Tok.of ++ [⟨.finish, base + byteCount src, broken⟩]
  /-- The last one only is the end. -/
  ne_finish : ∀ t ∈ toks.dropLast, t.kind ≠ .finish
  /-- Their offsets ascend. -/
  ascending : toks.Pairwise (·.offset < ·.offset)
  /-- With the gaps between them they make up the text. -/
  tiles : Tiles base src toks
  /-- Templates have a chunk more than stretches, which stand at their offsets in the text. -/
  templates : ∀ t ∈ toks, ∀ chunks stretches, t.kind = .template chunks stretches →
    chunks.length = stretches.length + 1 ∧ ∀ stretch ∈ stretches, HoldsStretch src base stretch
  /-- The tokens of stretches at any depth stand at their offsets in the text. -/
  nested : ∀ stretch inner, IsStretch (base, src) stretch →
    tokenize stretch.2 stretch.1 = pure inner → ∀ t ∈ inner, ∃ front spelling left,
      src = front ++ (spelling ++ left) ∧ t.offset = base + byteCount front ∧
        Spells t.kind t.offset spelling

/-- **Nothing is lost, and all offsets are true** where a text is cut into tokens. -/
theorem isLossless_of_tokenize {src : List Char} {base : Nat} {toks : List Tok}
    (h : tokenize src base = pure toks) : IsLossless src base toks where
  lexed := exists_lexemes_of_tokenize h
  ne_finish := (tiles_of_tokenize h).ne_finish
  ascending := (tiles_of_tokenize h).pairwise
  tiles := tiles_of_tokenize h
  templates := fun _ ht _ _ hkind => (tiles_of_tokenize h).holdsStretch ht hkind
  nested := fun _ _ hstretch hinner _ ht => hstretch.exists_spelling hinner ht

/-- A word of two bytes, a comment, and a template with a template in its stretch. -/
theorem isLossless_of_tokenize_nested : ∃ toks,
    tokenize "é /* ä */ \x60ö$\x7b[\x60$\x7bx\x7dü\x60]\x7d\x60".toList 5 = pure toks ∧
      toks.map Tok.offset = [5, 17, 34] ∧
      IsLossless "é /* ä */ \x60ö$\x7b[\x60$\x7bx\x7dü\x60]\x7d\x60".toList 5 toks := by
  have hcheck : (lexemes (locate 5
      "é /* ä */ \x60ö$\x7b[\x60$\x7bx\x7dü\x60]\x7d\x60".toList)).toOption.any
        (fun ts => ts.map Lexeme.offset == [5, 17]) = true := by decide +kernel
  obtain ⟨ts, hts, hoffsets⟩ := (Option.any_eq_true ..).1 hcheck
  obtain ⟨broken, htoks⟩ := exists_tokenize_of_lexemes (eq_ok_of_toOption hts)
  have hstop : 5 + byteCount "é /* ä */ \x60ö$\x7b[\x60$\x7bx\x7dü\x60]\x7d\x60".toList = 34 := by
    decide
  refine ⟨_, htoks, ?_, isLossless_of_tokenize htoks⟩
  rw [List.map_append, List.map_map, show Tok.offset ∘ Tok.of = Lexeme.offset from rfl,
    beq_iff_eq.1 hoffsets, hstop]
  rfl

end CardTable.Script.Cursor
