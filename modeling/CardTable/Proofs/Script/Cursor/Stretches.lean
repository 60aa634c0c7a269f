import CardTable.Proofs.Script.Cursor.Tokens
import CardTable.Proofs.Script.Expressions.Substitutions

set_option autoImplicit false

/-!
# Stretches of templates in place

A template is cut off together with its stretches, each of them with the offsets of its characters.
Here the template stands before them as a whole: its chunks, and between a dollar sign with an
opening brace and a closing brace each of its stretches. So a stretch has the offsets that its
characters have in the text around the template, and a stretch in a template in a stretch as well.

## Main definitions

* `CardTable.Script.IsTemplate` — the text of a template, with its chunks and stretches.
* `CardTable.Script.Cursor.IsStretch` — a stretch of a text, at any depth.

## Main results

* `CardTable.Script.isTemplate_of_found?` — a template that is cut off stands in the text.
* `CardTable.Script.isPlaced_of_lexemes` — the stretches of a text have the offsets of their
  characters.
* `CardTable.Script.Cursor.IsStretch.of_lexemes` — stretches of templates in a stretch.
-/

namespace CardTable.Script

/-- An answer that is kept when its failure is dropped is a result. -/
lemma eq_ok_of_toOption {ε α : Type} {x : Except ε α} {a : α} (h : x.toOption = some a) :
    x = .ok a := by
  cases x with
  | ok b =>
    obtain rfl := Option.some.inj h
    rfl
  | error e => cases h

section Templates

variable {start : Nat} {cs behind : List Glyph}

/-- A stretch ends at the brace that closes it. -/
lemma exists_of_substitution {depth stop : Nat}
    (h : found? (substitution start depth cs) = some (stop, behind)) :
    ∃ inside, cs = inside ++ ⟨stop, '\x7d'⟩ :: behind := by
  induction hn : cs.length using Nat.strongRecOn generalizing cs depth with
  | _ n ih =>
  subst hn
  cases cs with
  | nil =>
    rw [substitution] at h
    cases h
  | cons g rest =>
  have hbehind : ∀ {depth : Nat} {left : List Glyph}, left <:+ rest →
      found? (substitution start depth left) = some (stop, behind) →
        ∃ inside, g :: rest = inside ++ ⟨stop, '\x7d'⟩ :: behind := by
    rintro depth left ⟨front, rfl⟩ hleft
    obtain ⟨inside, rfl⟩ := ih left.length
      (by simp only [List.length_cons, List.length_append]; omega) hleft rfl
    exact ⟨g :: front ++ inside, by simp⟩
  have hrest := List.suffix_refl rest
  rw [found?_substitution] at h
  split at h
  · next hclose =>
    cases depth with
    | zero =>
      obtain ⟨⟨⟩, ⟨⟩⟩ := h
      exact ⟨[], by rw [← hclose]; rfl⟩
    | succ depth => exact hbehind hrest h
  split at h
  · obtain ⟨⟨s, left⟩, hliteral, h⟩ := Option.bind_eq_some_iff.1 h
    obtain ⟨front, hfront⟩ := (cutsOff_stringLiteral (i := 0) (j := 0) hliteral).exists_front
    exact hbehind ⟨front, hfront.symm⟩ h
  split at h
  · obtain ⟨⟨⟨head, parts⟩, left⟩, hliteral, h⟩ := Option.bind_eq_some_iff.1 h
    obtain ⟨front, hfront⟩ :=
      ((templatesCutOff (i := 0) (j := 0) rest).literal hliteral).exists_front
    exact hbehind ⟨front, hfront.symm⟩ h
  · exact hbehind hrest h

/-- The text of a chunk: without a backslash in front, neither a backtick stands in it nor the two
signs that begin a stretch. -/
inductive IsChunk : List Char → Prop
  | nil : IsChunk []
  | plain {c : Char} {cs : List Char} (hescape : c ≠ '\\') (htick : c ≠ '\x60')
      (hstretch : c = '$' → cs.head? ≠ some '\x7b') (h : IsChunk cs) : IsChunk (c :: cs)
  | escaped {c : Char} {cs : List Char} (h : IsChunk cs) : IsChunk ('\\' :: c :: cs)

/-- The rest of a template stands at the front of a text, up to `behind`: what is left of its first
chunk, which begins with `read`, and the stretches and chunks behind it, up to the closing
backtick. -/
inductive IsTemplate (start : Nat) : List Char → List Glyph → String →
    List (Substitution × String) → List Glyph → Prop
  | last {read : List Char} {raw : List Glyph} {o : Nat} {chunk : String} {behind : List Glyph}
      (hraw : IsChunk (chars raw))
      (hchunk : cookChunk start (read.reverse ++ chars raw) = .ok chunk) :
      IsTemplate start read (raw ++ ⟨o, '\x60'⟩ :: behind) chunk [] behind
  | stretch {read : List Char} {raw source rest behind : List Glyph} {o o' stop : Nat}
      {chunk next : String} {parts : List (Substitution × String)} (hraw : IsChunk (chars raw))
      (hchunk : cookChunk start (read.reverse ++ chars raw) = .ok chunk)
      (hrest : IsTemplate start [] rest next parts behind) :
      IsTemplate start read
        (raw ++ ⟨o, '$'⟩ :: ⟨o', '\x7b'⟩ :: (source ++ ⟨stop, '\x7d'⟩ :: rest)) chunk
        ((⟨source, stop⟩, next) :: parts) behind

/-- More characters of the chunk. -/
lemma IsTemplate.append {read : List Char} (more : List Glyph) {chunk : String}
    {parts : List (Substitution × String)}
    (h : IsTemplate start ((chars more).reverse ++ read) cs chunk parts behind)
    (hmore : ∀ raw : List Glyph, raw <+: cs → IsChunk (chars raw) → IsChunk (chars (more ++ raw))) :
    IsTemplate start read (more ++ cs) chunk parts behind := by
  cases h with
  | @last _ raw o _ behind hraw hchunk =>
    rw [← List.append_assoc]
    refine .last (hmore raw (List.prefix_append ..) hraw) ?_
    simpa [chars] using hchunk
  | @stretch _ raw source rest behind o o' stop chunk next parts hraw hchunk hrest =>
    rw [← List.append_assoc]
    refine .stretch (hmore raw (List.prefix_append ..) hraw) ?_ hrest
    simpa [chars] using hchunk

/-- **A template that is found** stands there.

**Proof sketch.** Strong induction on the length of the text, by the character in front: an escape,
the closing backtick, a stretch with the rest of the template behind it, or a plain character. -/
theorem isTemplate_of_found? {read : List Char} {head : String}
    {parts : List (Substitution × String)} (hcs : IsLocated cs)
    (h : found? (template start read cs) = some ((head, parts), behind)) :
    IsTemplate start read cs head parts behind := by
  induction hn : cs.length using Nat.strongRecOn generalizing cs read head parts with
  | _ n ih =>
  subst hn
  cases cs with
  | nil =>
    rw [template] at h
    cases h
  | cons g rest =>
  rw [found?_template] at h
  split at h
  · next hescape =>
    obtain ⟨e, hhead, h⟩ := Option.bind_eq_some_iff.1 h
    obtain ⟨tail, rfl⟩ : ∃ tail, rest = e :: tail := List.head?_eq_some_iff.1 hhead
    have htail := ih tail.length (by simp only [List.length_cons]; omega) hcs.tail.tail h rfl
    refine IsTemplate.append [g, e] (by rw [← hescape] at htail; exact htail) ?_
    intro raw _ hraw
    rw [List.cons_append, List.singleton_append, Cursor.chars_cons, Cursor.chars_cons, hescape]
    exact .escaped hraw
  split at h
  · next htick =>
    obtain ⟨chunk, hchunk, ⟨⟨⟩, ⟨⟩⟩⟩ := Option.map_eq_some_iff.1 h
    obtain ⟨o, c⟩ := g
    obtain rfl : c = '\x60' := htick
    rw [← List.nil_append (_ :: _)]
    exact .last .nil (by simpa [chars] using eq_ok_of_toOption hchunk)
  split at h
  · next hdollar =>
    obtain ⟨o', tail, rfl⟩ := head?_eq_some_iff.1 hdollar.2
    obtain ⟨chunk, hchunk, h⟩ := Option.bind_eq_some_iff.1 h
    obtain ⟨⟨stop, left⟩, hstretch, h⟩ := Option.bind_eq_some_iff.1 h
    obtain ⟨⟨⟨next, more⟩, _⟩, hmore, ⟨⟩⟩ := Option.map_eq_some_iff.1 h
    obtain ⟨o, c⟩ := g
    obtain rfl : c = '$' := hdollar.1
    obtain ⟨inside, rfl⟩ : ∃ inside, tail = inside ++ ⟨stop, '\x7d'⟩ :: left :=
      exists_of_substitution hstretch
    have hleft : IsLocated (inside ++ ⟨stop, '\x7d'⟩ :: left) := hcs.tail.tail
    have hinside : before stop (inside ++ ⟨stop, '\x7d'⟩ :: left) = inside := frontOf_append hleft
    have hshort : left.length < (⟨o, '$'⟩ :: ⟨o', '\x7b'⟩ ::
        (inside ++ ⟨stop, '\x7d'⟩ :: left) : List Glyph).length := by
      simp only [List.length_cons, List.length_append]
      omega
    have hrest := ih left.length hshort hleft.right.tail hmore rfl
    rw [List.tail_cons, hinside]
    rw [← List.nil_append (_ :: _ :: _)]
    exact .stretch .nil (by simpa [chars] using eq_ok_of_toOption hchunk) hrest
  · next hescape htick hdollar =>
    refine IsTemplate.append [g] (ih rest.length (Nat.lt_succ_self _) hcs.tail h rfl) ?_
    rintro raw ⟨left, rfl⟩ hraw
    refine .plain hescape htick (fun hg hhead => hdollar ⟨hg, ?_⟩) hraw
    rw [List.head?_append, ← hhead]
    cases raw <;> simp_all [chars]

/-! ## Where the stretches stand -/

/-- A stretch that has the offsets of its characters, and its brace behind it. -/
def Substitution.IsPlaced (s : Substitution) : Prop :=
  s.source = locate (Cursor.start s) (chars s.source) ∧
    s.stop = Cursor.start s + Text.byteCount (chars s.source)

/-- The source of a substitution ends where its brace stands. -/
lemma isPlaced_of_isLocated {source rest : List Glyph} {stop : Nat}
    (h : IsLocated (source ++ ⟨stop, '\x7d'⟩ :: rest)) :
    (⟨source, stop⟩ : Substitution).IsPlaced := by
  obtain ⟨o, hsource, hstop⟩ := h.exists_locate
  obtain rfl : stop = o + Text.byteCount (chars source) :=
    congrArg Glyph.offset (List.cons.inj hstop).1
  have hstart : Cursor.start ⟨source, o + Text.byteCount (chars source)⟩ = o :=
    Nat.add_sub_cancel ..
  rw [Substitution.IsPlaced, hstart]
  exact ⟨hsource, rfl⟩

/-- The stretches of a template stand in it. -/
lemma IsTemplate.isPlaced {read : List Char} {head : String}
    {parts : List (Substitution × String)} (h : IsTemplate start read cs head parts behind)
    (hcs : IsLocated cs) : ∀ part ∈ parts, part.1.IsPlaced := by
  induction h with
  | last => nofun
  | stretch _ _ _ ih =>
    have hstretch := hcs.right.tail.tail
    exact List.forall_mem_cons.2 ⟨isPlaced_of_isLocated hstretch, ih hstretch.right.tail⟩

/-- A template among the tokens of a text stands in the text. -/
lemma Scans.exists_isTemplate {left : List Glyph} {ts : List Lexeme} (h : Scans cs ts left)
    (hcs : IsLocated cs) {t : Lexeme} (ht : t ∈ ts) {head : String}
    {parts : List (Substitution × String)} (htoken : t.token = .template head parts) :
    ∃ rest behind, rest <:+ cs ∧ IsTemplate t.offset [] rest head parts behind := by
  induction h with
  | nil => cases ht
  | @cons cs rest behind left g broken first ts hgap hfirst hscans ih =>
    have hsuffix := isSuffix_of_skipGap hgap
    have hrest := (List.suffix_cons g rest).trans hsuffix
    rcases List.mem_cons.1 ht with rfl | hmem
    · obtain rfl : first = .template head parts := htoken
      exact ⟨rest, behind, hrest,
        isTemplate_of_found? (hcs.of_suffix hrest) (found?_template_of_token hfirst)⟩
    · obtain ⟨front, rfl⟩ := exists_of_token hfirst
      have hbehind := (List.suffix_append front behind).trans hrest
      obtain ⟨rest', behind', hrest', htemplate⟩ := ih (hcs.of_suffix hbehind) hmem
      exact ⟨rest', behind', hrest'.trans hbehind, htemplate⟩

/-- The stretches of the templates in a text stand in it. -/
theorem isPlaced_of_lexemes {ts : List Lexeme} (h : lexemes cs = .ok ts) (hcs : IsLocated cs)
    {t : Lexeme} (ht : t ∈ ts) {head : String} {parts : List (Substitution × String)}
    (htoken : t.token = .template head parts) : ∀ part ∈ parts, part.1.IsPlaced := by
  obtain ⟨left, broken, hscans, -⟩ := Scans.of_lexemes h
  obtain ⟨rest, behind, hrest, htemplate⟩ := hscans.exists_isTemplate hcs ht htoken
  exact htemplate.isPlaced (hcs.of_suffix hrest)

end Templates

/-! ## Stretches of stretches -/

namespace Cursor

/-- The text at the offset is the whole one, or it is a stretch of a template in such a text. -/
inductive IsStretch (whole : Nat × List Char) : Nat × List Char → Prop
  | self : IsStretch whole whole
  | inside {outer stretch : Nat × List Char} {toks : List Tok} {t : Tok} {chunks : List String}
      {stretches : List (Nat × List Char)} (h : IsStretch whole outer)
      (htoks : tokenize outer.2 outer.1 = pure toks) (ht : t ∈ toks)
      (hkind : t.kind = .template chunks stretches) (hmem : stretch ∈ stretches) :
      IsStretch whole stretch

/-- The tokens of a text that has tokens. -/
lemma exists_tokenize_of_lexemes {src : List Char} {base : Nat} {ts : List Lexeme}
    (h : lexemes (locate base src) = .ok ts) : ∃ broken, tokenize src base =
      pure (ts.map Tok.of ++ [⟨.finish, base + Text.byteCount src, broken⟩]) := by
  obtain ⟨broken, htoks⟩ := exists_tokenize src base
  exact ⟨broken, by rw [htoks, h]; rfl⟩

/-- A text that has tokens has them as a list. -/
lemma exists_lexemes_of_tokenize {src : List Char} {base : Nat} {toks : List Tok}
    (h : tokenize src base = pure toks) : ∃ ts broken, lexemes (locate base src) = .ok ts ∧
      toks = ts.map Tok.of ++ [⟨.finish, base + Text.byteCount src, broken⟩] := by
  obtain ⟨broken, htoks⟩ := exists_tokenize src base
  rw [h] at htoks
  cases hts : lexemes (locate base src) with
  | error f =>
    rw [hts] at htoks
    cases htoks
  | ok ts =>
    rw [hts] at htoks
    cases htoks
    exact ⟨ts, broken, rfl, rfl⟩

/-- A stretch of a template in a stretch. -/
theorem IsStretch.of_lexemes {whole : Nat × List Char} {src : List Char} {base : Nat}
    (h : IsStretch whole (base, src))
    {ts : List Lexeme} (hts : lexemes (locate base src) = .ok ts) {t : Lexeme} (ht : t ∈ ts)
    {head : String} {parts : List (Substitution × String)}
    (htoken : t.token = .template head parts) {part : Substitution × String}
    (hpart : part ∈ parts) : IsStretch whole (start part.1, chars part.1.source) := by
  obtain ⟨broken, htoks⟩ := exists_tokenize_of_lexemes hts
  have hkind : (Tok.of t).kind = .template (chunksOf head parts) (stretchesOf parts) := by
    rw [Tok.of, htoken]
    rfl
  exact h.inside htoks (List.mem_append_left _ (List.mem_map_of_mem ht)) hkind
    (List.mem_map.2 ⟨part, hpart, rfl⟩)

end Cursor

end CardTable.Script
