import CardTable.Proofs.Script.Expressions.InfixOperators
import CardTable.Proofs.Script.Grammar.MatchingBraces

set_option autoImplicit false

/-!
# Substitutions

A template that consists of one substitution has the text of the value that stands in it, provided
that the search for the closing brace and the cutting into tokens agree about the stretch. They do
not agree about comments, which the search does not know: a brace, a quote or a backtick in a
comment counts for the search. They do not agree either about a type in which the braces do not
match.

## Main definitions

* `CardTable.Script.CommentsUnmarked` — nothing that counts stands in a comment.
* `CardTable.Script.TypesBalanced` — the braces match in every type.

## Main results

* `CardTable.Script.IsOperand.eval_substitutionExpr` — an operand has its value in a template.
* `CardTable.Script.IsOperand.found?_substitution` — the search ends behind an operand.
* `CardTable.Script.evaluate_substitution` — a template that consists of one substitution.
-/

namespace CardTable.Script

open Reader

/-! ## Stretches are shorter than their text -/

section Stretches

variable {cs behind left : List Glyph} {ts : List Lexeme}

/-- The stretches of a template are shorter than the template. -/
lemma length_of_template {start : Nat} {read : List Char} {head : String}
    {parts : List (Substitution × String)}
    (h : found? (template start read cs) = some ((head, parts), behind)) :
    ∀ p ∈ parts, p.1.source.length + 2 ≤ cs.length := by
  induction hn : cs.length using Nat.strongRecOn generalizing cs read head parts with
  | _ n ih =>
  subst hn
  cases cs with
  | nil =>
    rw [template] at h
    cases h
  | cons g rest =>
  rw [found?_template] at h
  split at h
  · obtain ⟨e, hhead, h⟩ := Option.bind_eq_some_iff.1 h
    obtain ⟨tail, rfl⟩ : ∃ tail, rest = e :: tail := List.head?_eq_some_iff.1 hhead
    intro p hp
    have := ih tail.length (by simp only [List.length_cons]; omega) h rfl p hp
    simp only [List.length_cons]
    omega
  split at h
  · obtain ⟨_, -, ⟨⟨⟩, ⟨⟩⟩⟩ := Option.map_eq_some_iff.1 h
    exact List.forall_mem_nil _
  split at h
  · next hdollar =>
    obtain ⟨o, tail, rfl⟩ := head?_eq_some_iff.1 hdollar.2
    obtain ⟨_, -, h⟩ := Option.bind_eq_some_iff.1 h
    obtain ⟨⟨stop, left⟩, hstretch, h⟩ := Option.bind_eq_some_iff.1 h
    obtain ⟨⟨⟨chunk, more⟩, _⟩, hmore, ⟨⟩⟩ := Option.map_eq_some_iff.1 h
    have htail : (⟨o, '\x7b'⟩ :: tail : List Glyph).tail = tail := rfl
    rw [htail] at hstretch ⊢
    obtain ⟨inside, brace, rfl, -⟩ := (templatesCutOff (i := 0) (j := 0) tail).brace hstretch
    rintro p (_ | ⟨_, hp⟩)
    · have := (List.takeWhile_sublist (fun x : Glyph => x.offset < stop)
        (l := inside ++ brace :: left)).length_le
      simp only [List.length_cons, before] at this ⊢
      omega
    · have := ih left.length (by simp only [List.length_cons, List.length_append]; omega) hmore rfl
        p hp
      simp only [List.length_cons, List.length_append]
      omega
  · intro p hp
    have := ih rest.length (Nat.lt_succ_self _) h rfl p hp
    simp only [List.length_cons]
    omega

/-- A token that is a template was cut off as one. -/
lemma found?_template_of_token {g : Glyph} {rest : List Glyph} {head : String}
    {parts : List (Substitution × String)}
    (h : token g rest = .ok (.template head parts, behind)) :
    found? (template g.offset [] rest) = some ((head, parts), behind) := by
  cases token_eq_ok_iff.1 h with
  | tick _ hliteral => exact hliteral

/-- The stretches of the templates in a text are shorter than the text. -/
lemma Scans.length_source (h : Scans cs ts left) {t : Lexeme} (ht : t ∈ ts) {head : String}
    {parts : List (Substitution × String)} (htoken : t.token = .template head parts) :
    ∀ p ∈ parts, p.1.source.length + 2 < cs.length := by
  intro p hp
  induction h with
  | nil => cases ht
  | @cons cs rest behind left g broken first ts hgap hfirst hscans ih =>
    have hrest := (isSuffix_of_skipGap hgap).length_le
    have hbehind := length_of_token hfirst
    rcases List.mem_cons.1 ht with rfl | ht
    · obtain rfl : first = .template head parts := htoken
      have := length_of_template (found?_template_of_token hfirst) p hp
      simp only [List.length_cons] at hrest
      omega
    · have := ih ht
      omega

end Stretches

/-! ## What stands in a stretch -/

/-- What stands in a template inside a stretch of `n` characters. -/
def innerExpr (n : Nat) (s : Substitution) : Expr :=
  if s.source.length < n then substitutionExpr s else .constant none

/-- It has the same values wherever it stands. -/
lemma innerExpr_refines (n : Nat) {s s' : Substitution} (h : s.Alike s') :
    (innerExpr n s).Refines (innerExpr n s') := by
  have hlength : s.source.length = s'.source.length := by
    obtain ⟨i, j, htwin⟩ := h
    exact htwin.source.length_eq
  rw [innerExpr, innerExpr, hlength]
  split
  · exact substitutionExpr_refines h
  · exact .refl _

/-- A stretch that is read to its end. -/
lemma substitutionExpr_of_reads {s : Substitution} {ts : List Lexeme} {e : Expr}
    (hts : lexemes s.source = .ok ts)
    (h : Reads (innerExpr s.source.length) .expression ts (.expr e) []) :
    substitutionExpr s = e := by
  obtain ⟨_, hwhole⟩ := (expression_isWhole_iff (.of s.stop ts)).2 h
  have hinner : innerExpr s.source.length = fun t =>
      if t.source.length < s.source.length then substitutionExpr t else .constant none := rfl
  rw [hinner] at hwhole
  rw [substitutionExpr, hts]
  dsimp only
  rw [hwhole]

/-! ## Operands and their tokens -/

/-- How an operand is read: its tokens are spelt in `front`, and the gap `gap` stands between them
and the closing bracket `close` at `o`. -/
structure OperandParts (bindings : List (String × Value)) (e : String) (v : Option Value)
    (ts : List Lexeme) (close : Lexeme) (front gap : List Glyph) (o : Nat) (tree : Expr) :
    Prop where
  text : locate 0 e.toList = front ++ gap
  bracketed : locate 0 (e.toList ++ [')']) = front ++ (gap ++ [⟨o, ')'⟩])
  scans : Scans (front ++ (gap ++ [⟨o, ')'⟩])) ts (gap ++ [⟨o, ')'⟩])
  lexemes : lexemes (locate 0 (e.toList ++ [')'])) = .ok (ts ++ [close])
  source : close.source = [⟨o, ')'⟩]
  isPunct : IsPunct ')' close
  skipGap : ∃ broken, skipGap gap = .ok (broken, [])
  reads : Reads substitutionExpr .expression (ts ++ [close]) (.expr tree) [close]
  eval : tree.eval (scopeOf bindings) = .ok v

section Operands

variable {bindings : List (String × Value)} {e : String} {v : Option Value}

/-- Every operand is read in this way. -/
lemma IsOperand.exists_parts (h : IsOperand bindings e v) : ∃ ts close front gap o tree,
    OperandParts bindings e v ts close front gap o tree := by
  obtain ⟨ts, close, fin, tree, hscans, hclose, hwhole, heval⟩ := h
  obtain ⟨front, gap, o, broken, htext, hbracketed, hfront, hsource, hgap⟩ :=
    hscans.exists_gap hclose
  have hskip := skipGap_append (by decide) hgap ahead_nil
  rw [List.append_nil, Script.skipGap] at hskip
  exact ⟨ts, close, front, gap, o, tree, htext, hbracketed, hfront, hscans.lexemes_of_nil, hsource,
    hclose, ⟨_, hskip⟩, (expression_isWhole_iff fin).1 hwhole, heval⟩

variable {ts : List Lexeme} {close : Lexeme} {front gap : List Glyph} {o : Nat} {tree : Expr}

namespace OperandParts

/-- The tokens of an operand at another place, and the gap behind them. -/
lemma exists_twin (h : OperandParts bindings e v ts close front gap o tree) (o' : Nat) :
    ∃ front' gap', locate o' e.toList = front' ++ gap' ∧ Twin o' 0 front front' ∧
      Twin o' 0 gap gap' := by
  have htwin := twin_locate o' 0 e.toList
  rw [h.text] at htwin
  exact exists_append_of_forall₂ htwin

/-- The tokens of an operand without the closing bracket. -/
lemma exists_lexemes (h : OperandParts bindings e v ts close front gap o tree) (o' : Nat) :
    ∃ ts', Script.lexemes (locate o' e.toList) = .ok ts' ∧
      List.Forall₂ (Lexeme.Twin o' 0) ts ts' := by
  obtain ⟨front', gap', htext, hfront, hgap⟩ := h.exists_twin o'
  obtain ⟨broken, hskip⟩ := h.skipGap
  obtain ⟨front₀, hsame, hcut⟩ := h.scans.cutsOff (i := o') (j := 0)
  obtain rfl := List.append_cancel_right hsame
  have hahead := ahead_append_closing (c := ')') (by decide) gap o ahead_nil
  rw [List.append_nil] at hahead
  obtain ⟨ts', hscans, hts⟩ := hcut front' gap' hfront (hahead.trans (ahead_of_twin hgap))
  refine ⟨ts', ?_, hts⟩
  rw [htext, hscans.lexemes_eq, lexemes_of_end (skipGap_eq_nil_of_twin hskip hgap)]
  exact congrArg Except.ok (List.append_nil ts')

end OperandParts

/-- What stands in the templates of an operand is shorter than the operand. -/
lemma OperandParts.length_source (h : OperandParts bindings e v ts close front gap o tree)
    {t : Lexeme} (ht : t ∈ ts ++ [close]) {head : String} {parts : List (Substitution × String)}
    (htoken : t.token = .template head parts) :
    ∀ p ∈ parts, p.1.source.length < e.toList.length := by
  intro p hp
  obtain ⟨_, _, hscans, -⟩ := Scans.of_lexemes h.lexemes
  have hlength := hscans.length_source ht htoken p hp
  rw [length_locate, List.length_append, List.length_singleton] at hlength
  omega

/-- **An operand has its value in a template**, wherever the template stands.

**Proof sketch.** Between the braces stand the tokens of the operand, at another offset, with the
end of the stretch instead of the closing bracket (`Reads.replaceEnd`, `reads_of_twin`). -/
theorem IsOperand.eval_substitutionExpr (h : IsOperand bindings e v) (o stop : Nat) :
    (substitutionExpr ⟨locate o e.toList, stop⟩).eval (scopeOf bindings) = .ok v := by
  obtain ⟨ts, close, front, gap, o₀, tree, h⟩ := h.exists_parts
  obtain ⟨ts', hlexemes, htwin⟩ := h.exists_lexemes o
  have hatom : ∀ t ∈ ts ++ [close],
      atom? (innerExpr e.toList.length) t.token = atom? substitutionExpr t.token := by
    intro t ht
    cases htoken : t.token with
    | template head parts =>
      have hparts : ∀ p ∈ parts,
          (innerExpr e.toList.length p.1, p.2) = (substitutionExpr p.1, p.2) := fun p hp => by
        rw [innerExpr, if_pos (h.length_source ht htoken p hp)]
      rw [atom?, atom?, List.map_congr_left hparts]
    | _ => rfl
  have hend : EndsPart [] .expression := .inl rfl
  obtain ⟨ts₁, hts₁, hreads⟩ := h.reads.replaceEnd hatom h.isPunct (by decide)
    (List.nil_append [close]).symm fun _ => hend
  obtain rfl := List.append_cancel_right hts₁
  obtain ⟨tree', hreads', hrefines⟩ :=
    reads_of_twin (fun _ _ => innerExpr_refines _) (.inl ⟨rfl, rfl⟩) htwin hreads
  rw [List.append_nil, ← length_locate o] at hreads'
  rw [substitutionExpr_of_reads hlexemes hreads']
  exact hrefines _ _ h.eval

/-! ## The search ends behind an operand -/

/-- Nothing that counts stands in a comment of the operand `e`. -/
def CommentsUnmarked (e : String) : Prop :=
  ∀ ts, lexemes (locate 0 (e.toList ++ [')'])) = .ok ts →
    ∀ g ∈ locate 0 (e.toList ++ [')']), isMark g.char = true → ∃ t ∈ ts, g ∈ t.source

/-- The braces match in every type of the operand `e`. -/
def TypesBalanced (e : String) : Prop :=
  ∀ ts, lexemes (locate 0 (e.toList ++ [')'])) = .ok ts → TypesMatch ts

/-- All that counts in front of the gap stands in tokens, and nothing in the gap counts. -/
lemma OperandParts.marks (h : OperandParts bindings e v ts close front gap o tree)
    (hcomments : CommentsUnmarked e) :
    MarksIn ts (front ++ (gap ++ [⟨o, ')'⟩])) (gap ++ [⟨o, ')'⟩]) ∧
      ∀ x ∈ gap, isMark x.char = false := by
  have hlocated : IsLocated (front ++ (gap ++ [⟨o, ')'⟩])) :=
    h.bracketed ▸ isLocated_locate 0 (e.toList ++ [')'])
  have hmarks := hcomments _ h.lexemes
  rw [h.bracketed] at hmarks
  constructor
  · intro x hx hmark hleft
    obtain ⟨t, ht, hmem⟩ := hmarks x hx hmark
    rcases List.mem_append.1 ht with ht | ht
    · exact ⟨t, ht, hmem⟩
    · obtain rfl := List.mem_singleton.1 ht
      rw [h.source] at hmem
      exact absurd (List.mem_append_right _ hmem) hleft
  · intro x hx
    by_contra hmark
    obtain ⟨t, ht, hmem⟩ := hmarks x (List.mem_append_right _ (List.mem_append_left _ hx))
      (by simpa using hmark)
    rcases List.mem_append.1 ht with ht | ht
    · exact (h.scans.mem_source hlocated ht hmem).2 (List.mem_append_left _ hx)
    · obtain rfl := List.mem_singleton.1 ht
      rw [h.source] at hmem
      exact Nat.lt_irrefl _ (hlocated.right.lt hx hmem)

/-- **The search for the closing brace ends behind an operand**, wherever the operand stands, if the
operand holds nothing that counts in comments and no type in which the braces do not match.

**Proof sketch.** The search steps from token to token (`Scans.cutsOff_substitution`) and counts the
braces among them, which match (`Reads.braces`). Behind the last token stands a gap in which nothing
counts, and then the closing brace. -/
theorem IsOperand.found?_substitution (h : IsOperand bindings e v) (hcomments : CommentsUnmarked e)
    (htypes : TypesBalanced e) (o o' start : Nat) (left : List Glyph) :
    found? (substitution start 0 (locate o e.toList ++ ⟨o', '\x7d'⟩ :: left)) = some (o', left) := by
  obtain ⟨ts, close, front, gap, o₀, tree, h⟩ := h.exists_parts
  obtain ⟨hmarks, hgap⟩ := h.marks hcomments
  have hlocated : IsLocated (front ++ (gap ++ [⟨o₀, ')'⟩])) :=
    h.bracketed ▸ isLocated_locate 0 (e.toList ++ [')'])
  have hbraces : Braces 0 (ts ++ [close]) 0 [close] := h.reads.braces (htypes _ h.lexemes) 0
  obtain ⟨ts₁, hts₁, hdepth⟩ := hbraces
  obtain rfl := List.append_cancel_right hts₁
  obtain ⟨front', gap', htext, hfront', hgap'⟩ := h.exists_twin o
  obtain ⟨front₀, hsame, hcut⟩ :=
    h.scans.cutsOff_substitution (i := o) (j := 0) hlocated hmarks hdepth
  obtain rfl := List.append_cancel_right hsame
  have hahead : ahead (gap ++ [⟨o₀, ')'⟩]) = ahead (gap' ++ ⟨o', '\x7d'⟩ :: left) := by
    refine ahead_append hgap' ?_
    rw [ahead_cons, ahead_cons]
    rfl
  rw [htext, List.append_assoc, hcut front' _ hfront' hahead start,
    found?_substitution_of_isUnmarked (.of_twin hgap hgap' _), Script.found?_substitution]
  rfl

/-! ## Templates that consist of one substitution -/

/-- An empty chunk stands for the empty text. -/
lemma cookChunk_nil (start : Nat) : cookChunk start [] = .ok "" := by
  rw [cookChunk, joinLineEnds, unescape, unescapeFrom]
  rfl

/-- A template that begins with a substitution, by the brace that closes it. -/
lemma found?_template_of_search (o : Nat) {start stop : Nat} {rest left behind : List Glyph}
    {chunk : String} {parts : List (Substitution × String)}
    (hsearch : found? (substitution start 0 rest) = some (stop, left))
    (hmore : found? (template start [] left) = some ((chunk, parts), behind)) :
    found? (template start [] (⟨o, '$'⟩ :: ⟨o + 1, '\x7b'⟩ :: rest)) =
      some (("", (⟨before stop rest, stop⟩, chunk) :: parts), behind) := by
  rw [found?_template, if_neg (show '$' ≠ '\\' by decide), if_neg (show '$' ≠ '\x60' by decide),
    if_pos ⟨rfl, rfl⟩, List.reverse_nil, cookChunk_nil]
  change (found? (substitution start 0 rest)).bind _ = _
  rw [hsearch, Option.bind_some, hmore]
  rfl

/-- A template is one token. -/
lemma scans_template {o : Nat} {rest left : List Glyph} {head : String}
    {parts : List (Substitution × String)}
    (h : found? (template o [] rest) = some ((head, parts), left)) :
    Scans (⟨o, '\x60'⟩ :: rest)
      [⟨.template head parts, o, false, frontOf (⟨o, '\x60'⟩ :: rest) left⟩] left :=
  .cons (skipGap_of_not_isGap _ rfl (show '\x60' ≠ '/' by decide)) (token_of_tick rfl h) (.nil left)

/-- A body that returns a template with one substitution at its front. -/
lemma evaluate_of_scans_template {source chunk : String} {t : Lexeme} {s : Substitution}
    (hscans : Scans (locate 7 source.toList) [t] []) (ht : t.token = .template "" [(s, chunk)])
    (heval : (substitutionExpr s).eval (scopeOf bindings) = .ok v) :
    evaluate bindings ("return " ++ source) = .ok (.str (display v ++ chunk)) := by
  have hends : IsEnd [] := .inl rfl
  have hatom : atom? substitutionExpr t.token =
      some (.template "" [(substitutionExpr s, chunk)]) := by
    rw [ht]
    rfl
  have hreads := reads_expression_of_unary (reads_unary_of_primary (.atom hatom) hends) hends
  rw [evaluate_of_reads bindings hscans hreads]
  simp [Expr.eval, evalParts, heval, bind, Except.bind, Except.map]

/-- A template that consists of an operand in a substitution is one token. -/
lemma IsOperand.exists_scans_template (h : IsOperand bindings e v)
    (hcomments : CommentsUnmarked e) (htypes : TypesBalanced e) (o : Nat) : ∃ t stop,
    Scans (locate o ("\x60$\x7b" ++ e ++ "\x7d\x60").toList) [t] [] ∧
      t.token = .template "" [(⟨locate (o + 3) e.toList, stop⟩, "")] := by
  let stop := o + 3 + Text.byteCount e.toList
  let rest : List Glyph := locate (o + 3) (e.toList ++ ['\x7d', '\x60'])
  have hrest : rest = locate (o + 3) e.toList ++ [⟨stop, '\x7d'⟩, ⟨stop + 1, '\x60'⟩] :=
    locate_append_single _ _ rfl _
  have htext : locate o ("\x60$\x7b" ++ e ++ "\x7d\x60").toList =
      ⟨o, '\x60'⟩ :: ⟨o + 1, '$'⟩ :: ⟨o + 2, '\x7b'⟩ :: rest := by
    rw [String.toList_append, String.toList_append, List.append_assoc]
    rfl
  have hsearch := h.found?_substitution hcomments htypes (o + 3) stop o [⟨stop + 1, '\x60'⟩]
  rw [← hrest] at hsearch
  have hend : found? (template o [] [⟨stop + 1, '\x60'⟩]) = some (("", []), []) := by
    rw [found?_template, if_neg (show '\x60' ≠ '\\' by decide), if_pos rfl, List.reverse_nil,
      cookChunk_nil]
    rfl
  have hbefore : before stop rest = locate (o + 3) e.toList := before_locate_append ..
  rw [htext]
  refine ⟨_, stop, scans_template (found?_template_of_search (o + 1) hsearch hend), ?_⟩
  rw [hbefore]

/-- An operand alone in a template has the text of its value. -/
lemma IsOperand.evaluate_template (h : IsOperand bindings e v) (hcomments : CommentsUnmarked e)
    (htypes : TypesBalanced e) :
    evaluate bindings ("return \x60$\x7b" ++ e ++ "\x7d\x60") = .ok (.str (display v)) := by
  obtain ⟨t, stop, hscans, ht⟩ := h.exists_scans_template hcomments htypes 7
  have hbody : "return \x60$\x7b" ++ e ++ "\x7d\x60" =
      "return " ++ ("\x60$\x7b" ++ e ++ "\x7d\x60") := by
    simp only [← String.append_assoc]
    rfl
  rw [hbody, evaluate_of_scans_template hscans ht (h.eval_substitutionExpr 10 stop),
    String.append_empty]

end Operands

/-- **A template that consists of one substitution** has the text of the value that its expression
has in brackets, whatever strings, templates, braces and comments the expression holds, as long as
its comments hold neither braces nor quotes nor backticks and the braces in its types match.

**Proof sketch.** In brackets the expression has the value of the operand. In the template the
search for the closing brace ends behind it (`IsOperand.found?_substitution`), and the stretch in
front of the brace has the same value there (`IsOperand.eval_substitutionExpr`). -/
theorem evaluate_substitution {bindings : List (String × Value)} {e : String} {v : Option Value}
    (h : IsOperand bindings (e ++ "\n") v) (hcomments : CommentsUnmarked (e ++ "\n"))
    (htypes : TypesBalanced (e ++ "\n")) :
    evaluate bindings ("return (" ++ e ++ "\n)") = .ok (v.getD .null) ∧
      evaluate bindings ("return \x60$\x7b" ++ e ++ "\n\x7d\x60") = .ok (.str (display v)) := by
  have hbracketed := h.evaluate_bracketed
  have htemplate := h.evaluate_template hcomments htypes
  simp only [String.append_assoc] at hbracketed htemplate ⊢
  exact ⟨hbracketed, htemplate⟩

/-- A text that is a word or a literal, with a gap and a closing bracket behind it. -/
lemma isOperand_of_token {e : String} {g : Glyph} {rest left : List Glyph} {t : Token}
    {v : Option Value} {o : Nat} {broken : Bool}
    (htext : locate 0 (e.toList ++ [')']) = g :: rest) (hgap : isGap g.char = false)
    (hslash : g.char ≠ '/') (htoken : token g rest = .ok (t, left))
    (hleft : skipGap left = .ok (broken, [⟨o, ')'⟩]))
    (ht : atom? substitutionExpr t = some (.constant v)) :
    IsOperand [] e v ∧ ∃ close, IsPunct ')' close ∧
      lexemes (locate 0 (e.toList ++ [')'])) =
        .ok [⟨t, g.offset, false, frontOf (g :: rest) left⟩, close] := by
  have hscans : Scans (g :: rest) [⟨t, g.offset, false, frontOf (g :: rest) left⟩,
      ⟨.sign (.punct ')'), o, broken, frontOf [⟨o, ')'⟩] []⟩] [] :=
    .cons (skipGap_of_not_isGap rest hgap hslash) htoken (.cons hleft rfl (.nil []))
  have hlexemes := hscans.lexemes_eq
  rw [lexemes_of_end (show skipGap [] = .ok (false, []) by rw [skipGap])] at hlexemes
  rw [← htext] at hscans
  refine ⟨isOperand_of_atom hscans rfl ht (by rw [Expr.eval]), ?_⟩
  rw [htext]
  refine ⟨_, ?_, hlexemes⟩
  rfl

/-- A brace in a string literal closes nothing, and a comment without braces does not count. -/
theorem evaluate_substitution_quoted :
    IsOperand [] ("\"\x7d\" // end" ++ "\n") (some (.str "\x7d")) ∧
      CommentsUnmarked ("\"\x7d\" // end" ++ "\n") ∧ TypesBalanced ("\"\x7d\" // end" ++ "\n") ∧
      evaluate [] "return (\"\x7d\" // end\n)" = .ok (.str "\x7d") ∧
      evaluate [] "return \x60$\x7b\"\x7d\" // end\n\x7d\x60" = .ok (.str "\x7d") := by
  have hfound : found? (stringLiteral ⟨0, '"'⟩ (locate 1 "\x7d\" // end\n)".toList)) =
      some ("\x7d", locate 3 " // end\n)".toList) := by
    decide +kernel
  have hgap : skipGap (locate 3 " // end\n)".toList) = .ok (true, [⟨11, ')'⟩]) := by
    decide +kernel
  have hword : ¬ startsWord '"' = true := by decide
  have htoken := token_of_quote hword (by simp [startsNumber]) (.inr rfl) hfound
  obtain ⟨hoperand, close, hclose, hlexemes⟩ := isOperand_of_token
    (e := "\"\x7d\" // end" ++ "\n") rfl rfl (show '"' ≠ '/' by decide) htoken hgap rfl
  have hcomments : CommentsUnmarked ("\"\x7d\" // end" ++ "\n") := by
    intro ts hts g hg hmark
    obtain rfl := Except.ok.inj (hlexemes.symm.trans hts)
    have hsource : ∀ g ∈ locate 0 (("\"\x7d\" // end" ++ "\n").toList ++ [')']),
        isMark g.char = true → g ∈ frontOf (⟨0, '"'⟩ :: locate 1 "\x7d\" // end\n)".toList)
          (locate 3 " // end\n)".toList) := by
      decide +kernel
    exact ⟨_, List.mem_cons_self .., hsource g hg hmark⟩
  have htypes : TypesBalanced ("\"\x7d\" // end" ++ "\n") := by
    intro ts hts
    obtain rfl := Except.ok.inj (hlexemes.symm.trans hts)
    refine typesMatch_of_not_startsCast fun t ht => ?_
    rcases List.mem_cons.1 ht with rfl | ht
    · rintro ⟨_, ⟨⟩, -⟩
    · rw [List.mem_singleton.1 ht]
      exact not_startsCast_of_isPunct hclose
  have hbracketed : "return (\"\x7d\" // end\n)" = "return (" ++ "\"\x7d\" // end" ++ "\n)" := by
    decide +kernel
  have htemplate : "return \x60$\x7b\"\x7d\" // end\n\x7d\x60" =
      "return \x60$\x7b" ++ "\"\x7d\" // end" ++ "\n\x7d\x60" := by
    decide +kernel
  rw [hbracketed, htemplate]
  exact ⟨hoperand, hcomments, htypes, evaluate_substitution hoperand hcomments htypes⟩

/-- A brace in a comment closes a substitution, and what is behind it becomes text of the
template. -/
theorem evaluate_commented_brace :
    IsOperand [] ("true // \x7d" ++ "\n") (some (.bool true)) ∧
      evaluate [] "return (true // \x7d\n)" = .ok (.bool true) ∧
      evaluate [] "return \x60$\x7btrue // \x7d\n\x7d\x60" = .ok (.str "true\n\x7d") := by
  have hgap : skipGap (locate 4 " // \x7d\n)".toList) = .ok (true, [⟨10, ')'⟩]) := by
    decide +kernel
  obtain ⟨hoperand, -⟩ := isOperand_of_token (e := "true // \x7d" ++ "\n") (t := .word "true")
    rfl rfl (show 't' ≠ '/' by decide) rfl hgap rfl
  have hbracketed : "return (true // \x7d\n)" = "return (" ++ ("true // \x7d" ++ "\n") ++ ")" := by
    decide +kernel
  refine ⟨hoperand, by rw [hbracketed, hoperand.evaluate_bracketed]; rfl, ?_⟩
  -- the search ends in the comment, and the rest of the text is a chunk of the template
  have hsearch : found? (substitution 7 0 (locate 10 "true // \x7d\n\x7d\x60".toList)) =
      some (18, locate 19 "\n\x7d\x60".toList) := by
    decide +kernel
  have hchunk : (found? (template 7 [] (locate 19 "\n\x7d\x60".toList))).map
      (fun p => (p.1.1, p.1.2.length, p.2)) = some ("\n\x7d", 0, []) := by
    decide +kernel
  obtain ⟨⟨⟨chunk, parts⟩, left⟩, hmore, heq⟩ := Option.map_eq_some_iff.1 hchunk
  simp only [Prod.mk.injEq, List.length_eq_zero_iff] at heq
  obtain ⟨rfl, rfl, rfl⟩ := heq
  have hstretch : before 18 (locate 10 "true // \x7d\n\x7d\x60".toList) =
      locate 10 "true // ".toList := by
    decide +kernel
  have htext : locate 7 "\x60$\x7btrue // \x7d\n\x7d\x60".toList = ⟨7, '\x60'⟩ :: ⟨8, '$'⟩ ::
      ⟨9, '\x7b'⟩ :: locate 10 "true // \x7d\n\x7d\x60".toList := by
    decide +kernel
  have hscans := scans_template (found?_template_of_search 8 hsearch hmore)
  rw [hstretch, ← htext] at hscans
  -- the stretch ends with the comment
  have hend : skipGap (locate 14 " // ".toList) = .ok (false, []) := by
    decide +kernel
  obtain ⟨t, hword, ht, -⟩ :=
    @exists_scans_word 't' "rue".toList rfl rfl (by decide) 10 (locate 14 " // ".toList) rfl
  have hlexemes := hword.lexemes_eq
  rw [lexemes_of_end hend] at hlexemes
  have hends : IsEnd [] := .inl rfl
  have hatom : atom? (innerExpr 8) t.token = some (.constant (some (.bool true))) := by
    rw [ht]
    rfl
  have hreads := reads_expression_of_unary (reads_unary_of_primary (.atom hatom) hends) hends
  have heval : (substitutionExpr ⟨locate 10 "true // ".toList, 18⟩).eval (scopeOf []) =
      .ok (some (.bool true)) := by
    rw [substitutionExpr_of_reads (s := ⟨locate 10 "true // ".toList, 18⟩) hlexemes hreads,
      Expr.eval]
  have hbody : "return \x60$\x7btrue // \x7d\n\x7d\x60" =
      "return " ++ "\x60$\x7btrue // \x7d\n\x7d\x60" := by
    decide +kernel
  have htexts : display (some (.bool true)) ++ "\n\x7d" = "true\n\x7d" := by
    decide +kernel
  rw [hbody, evaluate_of_scans_template hscans rfl heval, htexts]

end CardTable.Script
