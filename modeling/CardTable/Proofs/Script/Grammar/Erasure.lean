import CardTable.Proofs.Script.Grammar.Annotations

set_option autoImplicit false

/-!
# Reading without annotations

If annotations are taken out of a token list, then every expression in the list is read as before:
where an annotation stands in the way of an expression, there was no expression to be read.

## Main definitions

* `CardTable.Script.Reader.Before`, `CardTable.Script.Reader.After` — how far an annotation may have
  been taken out in front of a part of an expression, and behind it.
* `CardTable.Script.Reader.Persists` — a part that is read without annotations. Each rule of the
  grammar keeps it, which the lemmas `Persists.signed`, `Persists.plain` and so on say.

## Main results

* `CardTable.Script.Reader.reads_erases` — what is read without annotations has the same values.
-/

namespace CardTable.Script

namespace Reader

/-! ## Reading without annotations -/

/-- What is behind a part is no longer than the token list. -/
lemma Reads.length_le {inner : Substitution → Expr} {part : Part} {ts us : List Lexeme}
    {node : Node} (h : Reads inner part ts node us) : us.length ≤ ts.length := by
  induction h with
  | @expression _ us _ _ _ ih => exact Nat.le_trans (length_skipCasts_le us) ih
  | linksEnd => exact Nat.le_refl _
  | valueItem _ ih => exact ih
  | plain _ _ ihprimary ihlinks => exact Nat.le_trans ihlinks ihprimary
  | _ =>
    simp only [List.length_cons] at *
    omega

section Simulation

variable {inner inner' : Substitution → Expr} {us us' ts ts' : List Lexeme} {t : Lexeme}

/-- Between the keyword of a declaration and its annotation nothing goes on. -/
lemma Erases.isStuck (h : Erases us us' .declaring ts ts') : IsStuck ts := by
  cases h with
  | typed hname _ _ hcolon => exact ⟨_, _, _, _, rfl, hname, hcolon⟩

/-- Where nothing goes on there is a word. -/
lemma IsStuck.exists_word (h : IsStuck (t :: ts)) : ∃ w, t.token = .word w := by
  obtain ⟨_, _, _, w, heq, hname, _⟩ := h
  obtain ⟨rfl, -⟩ := List.cons.inj heq
  exact ⟨w, hname⟩

/-- The first token is alike in both lists, and so is what is behind it, unless it is the keyword of
a declaration. -/
lemma Erases.exists_cons (h : Erases us us' .outside (t :: ts) ts')
    (hlength : us.length ≤ ts.length) : ∃ t' rest', ts' = t' :: rest' ∧ t.Alike t' ∧
      (Erases us us' .outside ts rest' ∨
        (∃ w, t.token = .word w ∧ isDeclarator w = true) ∧ Erases us us' .declaring ts rest') := by
  cases h with
  | behind =>
    simp only [List.length_cons] at hlength
    omega
  | keep ht h => exact ⟨_, _, rfl, ht, .inl h⟩
  | keyword ht hword hdeclarator h => exact ⟨_, _, rfl, ht, .inr ⟨⟨_, hword, hdeclarator⟩, h⟩⟩

/-- Another token than a word is alike in both lists, and so is what is behind it. -/
lemma Erases.exists_of_not_word (h : Erases us us' .outside (t :: ts) ts')
    (ht : ∀ w, t.token ≠ .word w) (hlength : us.length ≤ ts.length) :
    ∃ t' rest', ts' = t' :: rest' ∧ t.Alike t' ∧ Erases us us' .outside ts rest' := by
  obtain ⟨t', rest', rfl, halike, h | ⟨⟨w, hw, -⟩, -⟩⟩ := h.exists_cons hlength
  · exact ⟨t', rest', rfl, halike, h⟩
  · exact absurd hw (ht w)

/-- The same of a token at which more than one stage may have been reached. -/
lemma Erases.exists_of_stage {stage : Stage} (h : Erases us us' stage (t :: ts) ts')
    (ht : ∀ w, t.token ≠ .word w) (hlength : us.length ≤ ts.length) :
    ∃ t' rest', ts' = t' :: rest' ∧ t.Alike t' ∧ Erases us us' .outside ts rest' := by
  cases stage with
  | outside => exact h.exists_of_not_word ht hlength
  | declaring =>
    obtain ⟨w, hw⟩ := h.isStuck.exists_word
    exact absurd hw (ht w)

/-- The same of a token at which nothing may have gone on. -/
lemma exists_of_erases_or_isStuck (h : Erases us us' .outside (t :: ts) ts' ∨ IsStuck (t :: ts))
    (ht : ∀ w, t.token ≠ .word w) (hlength : us.length ≤ ts.length) :
    ∃ t' rest', ts' = t' :: rest' ∧ t.Alike t' ∧ Erases us us' .outside ts rest' := by
  rcases h with h | h
  · exact h.exists_of_not_word ht hlength
  · obtain ⟨w, hw⟩ := h.exists_word
    exact absurd hw (ht w)

/-- A sign is no word. -/
lemma IsPunct.ne_word {c : Char} (ht : IsPunct c t) (w : String) : t.token ≠ .word w := by
  rw [ht]
  exact nofun

/-- The same sign stands first in both lists. -/
lemma atSign_erases (hend : EndAlike us us') (h : Erases us us' .outside ts ts') (c : Char) :
    atSign c ts' = atSign c ts := by
  cases h with
  | behind =>
    rcases hend with ⟨rfl, rfl⟩ | ⟨hclose, hclose'⟩
    · rfl
    · obtain ⟨t, rest, rfl, ht⟩ := exists_of_atSign hclose
      obtain ⟨t', rest', rfl, ht'⟩ := exists_of_atSign hclose'
      exact atSign_of_alike (alike_of_isPunct ht ht') c _ _
  | keep ht => exact atSign_of_alike ht c _ _
  | keyword ht => exact atSign_of_alike ht c _ _

/-- A word stands first while a declaration is on its way. -/
lemma atSign_declaring (h : Erases us us' .declaring ts ts') (c : Char) :
    atSign c ts' = false := by
  cases h with
  | typed _ hname' => exact atSign_eq_false (by simp [hname'])

/-- Behind a word no access goes on. -/
lemma endsLinks_of_word {w : String} (ht : t.token = .word w) : endsLinks (t :: ts) = true := by
  simp [endsLinks, ht]

/-- Accesses end in both lists. -/
lemma endsLinks_erases (hend : EndAlike us us') {stage : Stage} (h : Erases us us' stage ts ts')
    (hends : endsLinks ts = true) : endsLinks ts' = true := by
  cases h with
  | behind =>
    rcases hend with ⟨rfl, rfl⟩ | ⟨-, hclose'⟩
    · rfl
    · obtain ⟨t', rest', rfl, ht'⟩ := exists_of_atSign hclose'
      simp [endsLinks, show t'.token = _ from ht']
  | keyword ht hword => exact endsLinks_of_word (ht.word hword)
  | typed _ hname' => exact endsLinks_of_word hname'
  | @keep t t' ts ts' ht h =>
    have hnext := atSign_erases hend h '='
    unfold endsLinks at hends ⊢
    dsimp only at hends ⊢
    cases htoken : t.token with
    | sign s =>
      rw [htoken] at hends
      rw [ht.sign htoken]
      split at hends
      · cases hends
      · cases hends
      · cases hends
      · cases hends
      · next heq =>
        obtain rfl := Token.sign.inj heq
        exact hnext.trans hends
      · rfl
    | template head parts =>
      obtain ⟨i, j, htwin⟩ := ht.token
      rw [htoken] at htwin
      generalize t'.token = u at htwin
      cases htwin <;> rfl
    | _ => rw [ht.token_eq (by simp [htoken]), htoken]

/-- How far erasure may have come in front of a part. -/
def Before (us us' : List Lexeme) : Part → List Lexeme → List Lexeme → Prop
  | .links, ts, ts' => ∃ stage, Erases us us' stage ts ts'
  | _, ts, ts' => Erases us us' .outside ts ts'

/-- How far erasure may have come behind a part. -/
def After (us us' : List Lexeme) : Part → List Lexeme → List Lexeme → Prop
  | .unary, ts, ts' | .links, ts, ts' | .primary, ts, ts' => ∃ stage, Erases us us' stage ts ts'
  | .index, ts, ts' | .entries, ts, ts' | .items, ts, ts' => Erases us us' .outside ts ts'
  | _, ts, ts' => Erases us us' .outside ts ts' ∨ IsStuck ts

/-- Where nothing goes on there is no sign. -/
lemma IsStuck.atSign_eq_false (h : IsStuck ts) (c : Char) : atSign c ts = false := by
  obtain ⟨_, _, _, w, rfl, hname, _⟩ := h
  exact Reader.atSign_eq_false (by simp [hname])

/-- A declarator stands for no expression but a name. -/
lemma atom?_of_isDeclarator {w : String} (ht : t.token = .word w)
    (hdeclarator : isDeclarator w = true) : atom? inner t.token = none := by
  simp only [isDeclarator, Bool.or_eq_true, beq_iff_eq] at hdeclarator
  rw [ht]
  rcases hdeclarator with (rfl | rfl) | rfl <;> rfl

namespace Node.Refines

variable {node : Node}

/-- What an expression refines to is an expression. -/
lemma exists_expr {e : Expr} (h : (Node.expr e).Refines node) :
    ∃ e', node = .expr e' ∧ e.Refines e' := by
  cases node <;> first | exact ⟨_, rfl, h⟩ | exact h.elim

/-- What accesses refine to are accesses. -/
lemma exists_links {ls : List Link} (h : (Node.links ls).Refines node) :
    ∃ ls', node = .links ls' ∧ LinksRefine ls ls' := by
  cases node <;> first | exact ⟨_, rfl, h⟩ | exact h.elim

/-- What a property refines to is a property. -/
lemma exists_entry {e : Entry} (h : (Node.entry e).Refines node) :
    ∃ e', node = .entry e' ∧ EntriesRefine [e] [e'] := by
  cases node <;> first | exact ⟨_, rfl, h⟩ | exact h.elim

/-- What properties refine to are properties. -/
lemma exists_entries {es : List Entry} (h : (Node.entries es).Refines node) :
    ∃ es', node = .entries es' ∧ EntriesRefine es es' := by
  cases node <;> first | exact ⟨_, rfl, h⟩ | exact h.elim

/-- What an element refines to is an element. -/
lemma exists_item {i : Item} (h : (Node.item i).Refines node) :
    ∃ i', node = .item i' ∧ ItemsRefine [i] [i'] := by
  cases node <;> first | exact ⟨_, rfl, h⟩ | exact h.elim

/-- What elements refine to are elements. -/
lemma exists_items {is : List Item} (h : (Node.items is).Refines node) :
    ∃ is', node = .items is' ∧ ItemsRefine is is' := by
  cases node <;> first | exact ⟨_, rfl, h⟩ | exact h.elim

end Node.Refines

/-- **A part is read without annotations**: wherever they are taken out of a list that begins with
the part, what is left begins with a part that has the same values. -/
def Persists (inner' : Substitution → Expr) (us us' : List Lexeme) (part : Part)
    (ts : List Lexeme) (node : Node) (behind : List Lexeme) : Prop :=
  ∀ ⦃ts' : List Lexeme⦄, Before us us' part ts ts' →
    ∃ node' behind', Reads inner' part ts' node' behind' ∧ node.Refines node' ∧
      After us us' part behind behind'

/-- Nothing has to be on its way in front of a part. -/
lemma Before.of_outside {part : Part} (h : Erases us us' .outside ts ts') :
    Before us us' part ts ts' := by
  cases part with
  | links => exact ⟨.outside, h⟩
  | _ => exact h

/-- Behind a token that was kept there is some stage. -/
lemma exists_stage {P : Prop}
    (h : Erases us us' .outside ts ts' ∨ P ∧ Erases us us' .declaring ts ts') :
    ∃ stage, Erases us us' stage ts ts' :=
  h.elim (fun h => ⟨.outside, h⟩) fun h => ⟨.declaring, h.2⟩

namespace Persists

variable {part : Part} {node : Node} {middle behind : List Lexeme} {s : Sign} {w : String}
  {u : Lexeme} {e key : Expr} {links : List Link}

/-! ### Parts behind a sign and in front of one -/

/-- A part behind a sign: the sign is kept, and the part is read behind it. -/
lemma behind_sign {stage : Stage} (h : Persists inner' us us' part ts node behind)
    (hts : Erases us us' stage (t :: ts) ts') (ht : t.token = .sign s)
    (hle : us.length ≤ ts.length) :
    ∃ t' rest' node' behind', ts' = t' :: rest' ∧ t'.token = .sign s ∧
      Reads inner' part rest' node' behind' ∧ node.Refines node' ∧
      After us us' part behind behind' := by
  obtain ⟨t', rest', rfl, halike, hrest⟩ := hts.exists_of_stage (by simp [ht]) hle
  obtain ⟨node', behind', hread, hnode, hafter⟩ := h (.of_outside hrest)
  exact ⟨t', rest', node', behind', rfl, halike.sign ht, hread, hnode, hafter⟩

/-- A part in front of a sign: the sign is kept, and nothing is on its way behind it. -/
lemma before_sign (h : Persists inner' us us' part ts node (t :: behind))
    (hafter : ∀ {us₁ us₂}, After us us' part us₁ us₂ → Erases us us' .outside us₁ us₂ ∨ IsStuck us₁)
    (hts : Before us us' part ts ts') (ht : t.token = .sign s) (hle : us.length ≤ behind.length) :
    ∃ node' t' behind', Reads inner' part ts' node' (t' :: behind') ∧ node.Refines node' ∧
      t'.token = .sign s ∧ Erases us us' .outside behind behind' := by
  obtain ⟨node', middle', hread, hnode, hmiddle⟩ := h hts
  obtain ⟨t', behind', rfl, halike, hbehind⟩ :=
    exists_of_erases_or_isStuck (hafter hmiddle) (by simp [ht]) hle
  exact ⟨node', t', behind', hread, hnode, halike.sign ht, hbehind⟩

/-! ### Expressions -/

/-- An expression with casts behind it. -/
lemma expression (hend : EndAlike us us') (hends : EndsExpression (skipCasts ts))
    (hle : us.length ≤ (skipCasts ts).length)
    (h : Persists inner' us us' .unary middle (.expr e) ts) :
    Persists inner' us us' .expression middle (.expr e) (skipCasts ts) := by
  intro ts' hts
  obtain ⟨_, behind', hunary', hnode, stage, hbehind⟩ := h hts
  obtain ⟨e', rfl, he⟩ := hnode.exists_expr
  obtain ⟨hcasts, hends'⟩ := skipCasts_erases hend hbehind hle hends
  exact ⟨_, _, .expression hunary' hends', he, hcasts⟩

/-- A sign and its operand. -/
lemma signed (negative : Bool) (ht : IsPunct (if negative then '-' else '+') t)
    (hle : us.length ≤ ts.length) (h : Persists inner' us us' .unary ts (.expr e) behind) :
    Persists inner' us us' .unary (t :: ts) (.expr (.signed negative e)) behind := by
  intro ts' hts
  obtain ⟨t', rest', _, behind', rfl, ht', hunary', hnode, hafter⟩ := h.behind_sign hts ht hle
  obtain ⟨e', rfl, he⟩ := hnode.exists_expr
  exact ⟨_, _, .signed negative ht' hunary', he.signed negative, hafter⟩

/-- A primary expression with the accesses behind it. -/
lemma plain (hprimary : Persists inner' us us' .primary ts (.expr e) middle)
    (hlinks : Persists inner' us us' .links middle (.links links) behind) :
    Persists inner' us us' .unary ts (.expr (linked e links)) behind := by
  intro ts' hts
  obtain ⟨_, middle', hprimary', hnode, hmiddle⟩ := hprimary hts
  obtain ⟨e', rfl, he⟩ := hnode.exists_expr
  obtain ⟨_, behind', hlinks', hnode, hafter⟩ := hlinks hmiddle
  obtain ⟨ls', rfl, hls⟩ := hnode.exists_links
  exact ⟨_, _, .plain hprimary' hlinks', he.linked hls, hafter⟩

/-! ### Accesses -/

/-- Accesses end where no further one begins. -/
lemma linksEnd (hend : EndAlike us us') (hends : endsLinks ts = true) :
    Persists inner' us us' .links ts (.links []) ts :=
  fun _ ⟨stage, hts⟩ =>
    ⟨_, _, .linksEnd (endsLinks_erases hend hts hends), LinksRefine.nil, stage, hts⟩

/-- The name behind the dot may be the keyword of a declaration, as far as the tokens tell. -/
lemma named (optional : Bool) (ht : t.token = .sign (dot optional)) (hu : u.token = .word w)
    (hle : us.length ≤ ts.length) (h : Persists inner' us us' .links ts (.links links) behind) :
    Persists inner' us us' .links (t :: u :: ts) (.links (.named optional w :: links)) behind := by
  rintro ts' ⟨stage, hts⟩
  obtain ⟨t', _, rfl, ht', hts⟩ := hts.exists_of_stage (by simp [ht]) (Nat.le_succ_of_le hle)
  obtain ⟨u', rest', rfl, hu', hrest⟩ := hts.exists_cons hle
  obtain ⟨_, behind', hlinks', hnode, hafter⟩ := h (exists_stage hrest)
  obtain ⟨ls', rfl, hls⟩ := hnode.exists_links
  exact ⟨_, _, .named optional (ht'.sign ht) (hu'.word hu) hlinks', hls.named optional _, hafter⟩

/-- An access with a key in brackets. -/
lemma computed (ht : IsPunct '[' t) (hle : us.length ≤ ts.length)
    (hindex : Persists inner' us us' .index ts (.expr key) middle)
    (hlinks : Persists inner' us us' .links middle (.links links) behind) :
    Persists inner' us us' .links (t :: ts) (.links (.computed false key :: links)) behind := by
  rintro ts' ⟨stage, hts⟩
  obtain ⟨t', rest', _, middle', rfl, ht', hindex', hnode, hmiddle⟩ := hindex.behind_sign hts ht hle
  obtain ⟨key', rfl, hkey⟩ := hnode.exists_expr
  obtain ⟨_, behind', hlinks', hnode, hafter⟩ := hlinks (.of_outside hmiddle)
  obtain ⟨ls', rfl, hls⟩ := hnode.exists_links
  exact ⟨_, _, .computed ht' hindex' hlinks', hls.computed hkey false, hafter⟩

/-- An optional access with a key in brackets. -/
lemma optionalComputed (ht : t.token = .sign .optionalDot) (hu : IsPunct '[' u)
    (hle : us.length ≤ ts.length) (hindex : Persists inner' us us' .index ts (.expr key) middle)
    (hlinks : Persists inner' us us' .links middle (.links links) behind) :
    Persists inner' us us' .links (t :: u :: ts) (.links (.computed true key :: links)) behind := by
  rintro ts' ⟨stage, hts⟩
  obtain ⟨t', _, rfl, ht', hts⟩ := hts.exists_of_stage (by simp [ht]) (Nat.le_succ_of_le hle)
  obtain ⟨u', rest', _, middle', rfl, hu', hindex', hnode, hmiddle⟩ := hindex.behind_sign hts hu hle
  obtain ⟨key', rfl, hkey⟩ := hnode.exists_expr
  obtain ⟨_, behind', hlinks', hnode, hafter⟩ := hlinks (.of_outside hmiddle)
  obtain ⟨ls', rfl, hls⟩ := hnode.exists_links
  exact ⟨_, _, .optionalComputed (ht'.sign ht) hu' hindex' hlinks', hls.computed hkey true, hafter⟩

/-- A mark that a value is there, behind which the accesses go on. -/
lemma nonNull (hend : EndAlike us us') (ht : IsPunct '!' t) (hnext : atSign '=' ts = false)
    (hle : us.length ≤ ts.length) (h : Persists inner' us us' .links ts (.links links) behind) :
    Persists inner' us us' .links (t :: ts) (.links links) behind := by
  rintro ts' ⟨stage, hts⟩
  obtain ⟨t', rest', rfl, ht', hrest⟩ := hts.exists_of_stage ht.ne_word hle
  obtain ⟨_, behind', hlinks', hnode, hafter⟩ := h (.of_outside hrest)
  obtain ⟨ls', rfl, hls⟩ := hnode.exists_links
  have hnext' : atSign '=' rest' = false := by rwa [atSign_erases hend hrest]
  exact ⟨_, _, .nonNull (ht'.sign ht) hnext' hlinks', hls, hafter⟩

/-- A key and the bracket that closes it. -/
lemma index (ht : IsPunct ']' t) (hle : us.length ≤ behind.length)
    (h : Persists inner' us us' .expression ts (.expr e) (t :: behind)) :
    Persists inner' us us' .index ts (.expr e) behind := by
  intro ts' hts
  obtain ⟨_, t', behind', hexpression', hnode, ht', hbehind⟩ := h.before_sign id hts ht hle
  obtain ⟨e', rfl, he⟩ := hnode.exists_expr
  exact ⟨_, _, .index hexpression' ht', he, hbehind⟩

/-! ### Primary expressions -/

/-- A token that stands for an expression is the keyword of no declaration. -/
lemma atom (hinner : ∀ s s', s.Alike s' → (inner s).Refines (inner' s'))
    (ht : atom? inner t.token = some e) (hle : us.length ≤ ts.length) :
    Persists inner' us us' .primary (t :: ts) (.expr e) ts := by
  intro ts' hts
  obtain ⟨t', rest', rfl, ht', hrest⟩ := hts.exists_cons hle
  obtain ⟨e', hatom, he⟩ := atom?_of_alike hinner ht' ht
  rcases hrest with hrest | ⟨⟨w, hw, hdeclarator⟩, -⟩
  · exact ⟨_, _, .atom hatom, he, .outside, hrest⟩
  · rw [atom?_of_isDeclarator hw hdeclarator] at ht
    cases ht

/-- A name that is no constant and is not called. -/
lemma name (hend : EndAlike us us') (ht : t.token = .word w) (hconstant : wordConstant? w = none)
    (hsupported : w ∉ unsupportedWords) (hcall : atSign '(' ts = false)
    (hle : us.length ≤ ts.length) :
    Persists inner' us us' .primary (t :: ts) (.expr (.name w)) ts := by
  intro ts' hts
  obtain ⟨t', rest', rfl, ht', hrest⟩ := hts.exists_cons hle
  have hcall' : atSign '(' rest' = false := by
    rcases hrest with hrest | ⟨-, hrest⟩
    · rwa [atSign_erases hend hrest]
    · exact atSign_declaring hrest _
  exact ⟨_, _, .name (ht'.word ht) hconstant hsupported hcall', .refl _, exists_stage hrest⟩

/-- An expression in round brackets. -/
lemma bracketed (ht : IsPunct '(' t) (hu : IsPunct ')' u) (hle : us.length ≤ behind.length)
    (hts : us.length ≤ ts.length)
    (h : Persists inner' us us' .expression ts (.expr e) (u :: behind)) :
    Persists inner' us us' .primary (t :: ts) (.expr e) behind := by
  intro ts' hbefore
  obtain ⟨t', rest', rfl, ht', hrest⟩ := hbefore.exists_of_not_word ht.ne_word hts
  obtain ⟨_, u', behind', hexpression', hnode, hu', hbehind⟩ := h.before_sign id hrest hu hle
  obtain ⟨e', rfl, he⟩ := hnode.exists_expr
  exact ⟨_, _, .bracketed (ht'.sign ht) hexpression' hu', he, .outside, hbehind⟩

/-- A literal of properties. -/
lemma object {parts : List Entry} (ht : IsPunct '\x7b' t) (hle : us.length ≤ ts.length)
    (h : Persists inner' us us' .entries ts (.entries parts) behind) :
    Persists inner' us us' .primary (t :: ts) (.expr (.object parts)) behind := by
  intro ts' hts
  obtain ⟨t', rest', _, behind', rfl, ht', hentries', hnode, hafter⟩ := h.behind_sign hts ht hle
  obtain ⟨parts', rfl, hparts⟩ := hnode.exists_entries
  exact ⟨_, _, .object ht' hentries', .object hparts, .outside, hafter⟩

/-- A literal of elements. -/
lemma array {parts : List Item} (ht : IsPunct '[' t) (hle : us.length ≤ ts.length)
    (h : Persists inner' us us' .items ts (.items parts) behind) :
    Persists inner' us us' .primary (t :: ts) (.expr (.array parts)) behind := by
  intro ts' hts
  obtain ⟨t', rest', _, behind', rfl, ht', hitems', hnode, hafter⟩ := h.behind_sign hts ht hle
  obtain ⟨parts', rfl, hparts⟩ := hnode.exists_items
  exact ⟨_, _, .array ht' hitems', .array hparts, .outside, hafter⟩

/-! ### Parts of object literals -/

section Entries

variable {entry : Entry} {entries : List Entry}

/-- The value of a property behind its colon. -/
lemma propertyValue (ht : IsPunct ':' t) (hle : us.length ≤ ts.length)
    (h : Persists inner' us us' .expression ts (.expr e) behind) :
    Persists inner' us us' .propertyValue (t :: ts) (.expr e) behind := by
  intro ts' hts
  obtain ⟨t', rest', _, behind', rfl, ht', hexpression', hnode, hafter⟩ := h.behind_sign hts ht hle
  obtain ⟨e', rfl, he⟩ := hnode.exists_expr
  exact ⟨_, _, .propertyValue ht' hexpression', he, hafter⟩

/-- A value whose properties are taken over. -/
lemma spreadEntry (ht : t.token = .sign .spread) (hle : us.length ≤ ts.length)
    (h : Persists inner' us us' .expression ts (.expr e) behind) :
    Persists inner' us us' .entry (t :: ts) (.entry (.spread e)) behind := by
  intro ts' hts
  obtain ⟨t', rest', _, behind', rfl, ht', hexpression', hnode, hafter⟩ := h.behind_sign hts ht hle
  obtain ⟨e', rfl, he⟩ := hnode.exists_expr
  exact ⟨_, _, .spreadEntry ht' hexpression', EntriesRefine.spread he, hafter⟩

/-- In front of a comma or of a closing brace no declaration is on its way. -/
lemma shorthand (hend : EndAlike us us') (ht : t.token = .word w)
    (hnext : atSign ',' ts = true ∨ atSign '\x7d' ts = true) (hle : us.length ≤ ts.length) :
    Persists inner' us us' .entry (t :: ts) (.entry (.shorthand w)) ts := by
  intro ts' hts
  obtain ⟨t', rest', rfl, ht', hrest | ⟨-, hrest⟩⟩ := hts.exists_cons hle
  · refine ⟨_, _, .shorthand (ht'.word ht) ?_, fun _ _ _ h => h, .inl hrest⟩
    rwa [atSign_erases hend hrest, atSign_erases hend hrest]
  · rw [hrest.isStuck.atSign_eq_false, hrest.isStuck.atSign_eq_false] at hnext
    simp at hnext

/-- In front of a colon no declaration is on its way. -/
lemma property {k : String} (ht : literalKey? t.token = some k)
    (hvalue : Reads inner .propertyValue ts (.expr e) behind) (hle : us.length ≤ ts.length)
    (h : Persists inner' us us' .propertyValue ts (.expr e) behind) :
    Persists inner' us us' .entry (t :: ts) (.entry (.property k e)) behind := by
  intro ts' hts
  obtain ⟨t', rest', rfl, ht', hrest | ⟨-, hrest⟩⟩ := hts.exists_cons hle
  · obtain ⟨_, behind', hvalue', hnode, hafter⟩ := h hrest
    obtain ⟨e', rfl, he⟩ := hnode.exists_expr
    exact ⟨_, _, .property (literalKey?_of_alike ht' ht) hvalue', EntriesRefine.property he _,
      hafter⟩
  · cases hvalue with
    | propertyValue hcolon =>
      obtain ⟨w, hw⟩ := hrest.isStuck.exists_word
      exact absurd hw (hcolon.ne_word w)

/-- A property with a key in brackets. -/
lemma computedProperty (ht : IsPunct '[' t) (hle : us.length ≤ ts.length)
    (hindex : Persists inner' us us' .index ts (.expr key) middle)
    (hvalue : Persists inner' us us' .propertyValue middle (.expr e) behind) :
    Persists inner' us us' .entry (t :: ts) (.entry (.computed key e)) behind := by
  intro ts' hts
  obtain ⟨t', rest', _, middle', rfl, ht', hindex', hnode, hmiddle⟩ := hindex.behind_sign hts ht hle
  obtain ⟨key', rfl, hkey⟩ := hnode.exists_expr
  obtain ⟨_, behind', hvalue', hnode, hafter⟩ := hvalue hmiddle
  obtain ⟨e', rfl, he⟩ := hnode.exists_expr
  exact ⟨_, _, .computedProperty ht' hindex' hvalue', EntriesRefine.computed hkey he, hafter⟩

/-- A brace that closes a literal without further properties. -/
lemma noEntry (ht : IsPunct '\x7d' t) (hle : us.length ≤ ts.length) :
    Persists inner' us us' .entries (t :: ts) (.entries []) ts := by
  intro ts' hts
  obtain ⟨t', rest', rfl, ht', hrest⟩ := hts.exists_of_not_word ht.ne_word hle
  exact ⟨_, _, .noEntry (ht'.sign ht), EntriesRefine.nil, hrest⟩

/-- A property in front of others. -/
lemma moreEntries (ht : IsPunct ',' t) (hle : us.length ≤ middle.length)
    (hentry : Persists inner' us us' .entry ts (.entry entry) (t :: middle))
    (hentries : Persists inner' us us' .entries middle (.entries entries) behind) :
    Persists inner' us us' .entries ts (.entries (entry :: entries)) behind := by
  intro ts' hts
  obtain ⟨_, t', middle', hentry', hnode, ht', hmiddle⟩ := hentry.before_sign id hts ht hle
  obtain ⟨part', rfl, hpart⟩ := hnode.exists_entry
  obtain ⟨_, behind', hentries', hnode, hafter⟩ := hentries hmiddle
  obtain ⟨parts', rfl, hparts⟩ := hnode.exists_entries
  exact ⟨_, _, .moreEntries hentry' ht' hentries', hpart.append hparts, hafter⟩

/-- The last property of a literal. -/
lemma lastEntry (ht : IsPunct '\x7d' t) (hle : us.length ≤ behind.length)
    (h : Persists inner' us us' .entry ts (.entry entry) (t :: behind)) :
    Persists inner' us us' .entries ts (.entries [entry]) behind := by
  intro ts' hts
  obtain ⟨_, t', behind', hentry', hnode, ht', hbehind⟩ := h.before_sign id hts ht hle
  obtain ⟨part', rfl, hpart⟩ := hnode.exists_entry
  exact ⟨_, _, .lastEntry hentry' ht', hpart, hbehind⟩

end Entries

/-! ### Items of array literals -/

section Items

variable {item : Item} {items : List Item}

/-- A value whose elements are taken over. -/
lemma spreadItem (ht : t.token = .sign .spread) (hle : us.length ≤ ts.length)
    (h : Persists inner' us us' .expression ts (.expr e) behind) :
    Persists inner' us us' .item (t :: ts) (.item (.spread e)) behind := by
  intro ts' hts
  obtain ⟨t', rest', _, behind', rfl, ht', hexpression', hnode, hafter⟩ := h.behind_sign hts ht hle
  obtain ⟨e', rfl, he⟩ := hnode.exists_expr
  exact ⟨_, _, .spreadItem ht' hexpression', ItemsRefine.spread he, hafter⟩

/-- An element that is an expression. -/
lemma valueItem (h : Persists inner' us us' .expression ts (.expr e) behind) :
    Persists inner' us us' .item ts (.item (.value e)) behind := by
  intro ts' hts
  obtain ⟨_, behind', hexpression', hnode, hafter⟩ := h hts
  obtain ⟨e', rfl, he⟩ := hnode.exists_expr
  exact ⟨_, _, .valueItem hexpression', ItemsRefine.value he, hafter⟩

/-- A bracket that closes a literal without further elements. -/
lemma noItem (ht : IsPunct ']' t) (hle : us.length ≤ ts.length) :
    Persists inner' us us' .items (t :: ts) (.items []) ts := by
  intro ts' hts
  obtain ⟨t', rest', rfl, ht', hrest⟩ := hts.exists_of_not_word ht.ne_word hle
  exact ⟨_, _, .noItem (ht'.sign ht), ItemsRefine.nil, hrest⟩

/-- An element that is left out. -/
lemma hole (ht : IsPunct ',' t) (hle : us.length ≤ ts.length)
    (h : Persists inner' us us' .items ts (.items items) behind) :
    Persists inner' us us' .items (t :: ts) (.items (.hole :: items)) behind := by
  intro ts' hts
  obtain ⟨t', rest', _, behind', rfl, ht', hitems', hnode, hafter⟩ := h.behind_sign hts ht hle
  obtain ⟨parts', rfl, hparts⟩ := hnode.exists_items
  have hhole : ItemsRefine [.hole] [.hole] := fun _ _ h => h
  exact ⟨_, _, .hole ht' hitems', hhole.append hparts, hafter⟩

/-- An element in front of others. -/
lemma moreItems (ht : IsPunct ',' t) (hle : us.length ≤ middle.length)
    (hitem : Persists inner' us us' .item ts (.item item) (t :: middle))
    (hitems : Persists inner' us us' .items middle (.items items) behind) :
    Persists inner' us us' .items ts (.items (item :: items)) behind := by
  intro ts' hts
  obtain ⟨_, t', middle', hitem', hnode, ht', hmiddle⟩ := hitem.before_sign id hts ht hle
  obtain ⟨part', rfl, hpart⟩ := hnode.exists_item
  obtain ⟨_, behind', hitems', hnode, hafter⟩ := hitems hmiddle
  obtain ⟨parts', rfl, hparts⟩ := hnode.exists_items
  exact ⟨_, _, .moreItems hitem' ht' hitems', hpart.append hparts, hafter⟩

/-- The last element of a literal. -/
lemma lastItem (ht : IsPunct ']' t) (hle : us.length ≤ behind.length)
    (h : Persists inner' us us' .item ts (.item item) (t :: behind)) :
    Persists inner' us us' .items ts (.items [item]) behind := by
  intro ts' hts
  obtain ⟨_, t', behind', hitem', hnode, ht', hbehind⟩ := h.before_sign id hts ht hle
  obtain ⟨part', rfl, hpart⟩ := hnode.exists_item
  exact ⟨_, _, .lastItem hitem' ht', hpart, hbehind⟩

end Items

end Persists

/-- **What is read without annotations has the same values.**

**Proof sketch.** Induction on the rules of the grammar: each rule keeps `Persists`, by the lemma of
its name. The bound on `us` says that the part ends in front of `us`; it passes from what is behind
a part to all that is read in it, since nothing that is read gets longer. -/
theorem reads_erases (hinner : ∀ s s', s.Alike s' → (inner s).Refines (inner' s'))
    (hend : EndAlike us us') {part : Part} {node : Node} {behind : List Lexeme}
    (h : Reads inner part ts node behind) (hts : Before us us' part ts ts')
    (hlength : us.length ≤ behind.length) :
    ∃ node' behind', Reads inner' part ts' node' behind' ∧ node.Refines node' ∧
      After us us' part behind behind' := by
  suffices hpersists : Persists inner' us us' part ts node behind from hpersists hts
  clear hts
  induction h with
  | expression _ hends ih =>
    exact .expression hend hends hlength (ih (Nat.le_trans hlength (length_skipCasts_le _)))
  | signed negative ht hunary ih =>
    exact .signed negative ht (Nat.le_trans hlength hunary.length_le) (ih hlength)
  | plain _ hlinks ihprimary ihlinks =>
    exact .plain (ihprimary (Nat.le_trans hlength hlinks.length_le)) (ihlinks hlength)
  | linksEnd hends => exact .linksEnd hend hends
  | named optional ht hu hlinks ih =>
    exact .named optional ht hu (Nat.le_trans hlength hlinks.length_le) (ih hlength)
  | computed ht hindex hlinks ihindex ihlinks =>
    have hle := Nat.le_trans hlength hlinks.length_le
    exact .computed ht (Nat.le_trans hle hindex.length_le) (ihindex hle) (ihlinks hlength)
  | optionalComputed ht hu hindex hlinks ihindex ihlinks =>
    have hle := Nat.le_trans hlength hlinks.length_le
    exact .optionalComputed ht hu (Nat.le_trans hle hindex.length_le) (ihindex hle)
      (ihlinks hlength)
  | nonNull ht hnext hlinks ih =>
    exact .nonNull hend ht hnext (Nat.le_trans hlength hlinks.length_le) (ih hlength)
  | index _ ht ih => exact .index ht hlength (ih (Nat.le_succ_of_le hlength))
  | atom ht => exact .atom hinner ht hlength
  | name ht hconstant hsupported hcall =>
    exact .name hend ht hconstant hsupported hcall hlength
  | bracketed ht hexpression hu ih =>
    have hle := Nat.le_succ_of_le hlength
    exact .bracketed ht hu hlength (Nat.le_trans hle hexpression.length_le) (ih hle)
  | object ht hentries ih => exact .object ht (Nat.le_trans hlength hentries.length_le) (ih hlength)
  | array ht hitems ih => exact .array ht (Nat.le_trans hlength hitems.length_le) (ih hlength)
  | propertyValue ht hexpression ih =>
    exact .propertyValue ht (Nat.le_trans hlength hexpression.length_le) (ih hlength)
  | spreadEntry ht hexpression ih =>
    exact .spreadEntry ht (Nat.le_trans hlength hexpression.length_le) (ih hlength)
  | shorthand ht hnext => exact .shorthand hend ht hnext hlength
  | property ht hvalue ih =>
    exact .property ht hvalue (Nat.le_trans hlength hvalue.length_le) (ih hlength)
  | computedProperty ht hindex hvalue ihindex ihvalue =>
    have hle := Nat.le_trans hlength hvalue.length_le
    exact .computedProperty ht (Nat.le_trans hle hindex.length_le) (ihindex hle) (ihvalue hlength)
  | noEntry ht => exact .noEntry ht hlength
  | moreEntries _ ht hentries ihentry ihentries =>
    have hle := Nat.le_trans hlength hentries.length_le
    exact .moreEntries ht hle (ihentry (Nat.le_succ_of_le hle)) (ihentries hlength)
  | lastEntry _ ht ih => exact .lastEntry ht hlength (ih (Nat.le_succ_of_le hlength))
  | spreadItem ht hexpression ih =>
    exact .spreadItem ht (Nat.le_trans hlength hexpression.length_le) (ih hlength)
  | valueItem _ ih => exact .valueItem (ih hlength)
  | noItem ht => exact .noItem ht hlength
  | hole ht hitems ih => exact .hole ht (Nat.le_trans hlength hitems.length_le) (ih hlength)
  | moreItems _ ht hitems ihitem ihitems =>
    have hle := Nat.le_trans hlength hitems.length_le
    exact .moreItems ht hle (ihitem (Nat.le_succ_of_le hle)) (ihitems hlength)
  | lastItem _ ht ih => exact .lastItem ht hlength (ih (Nat.le_succ_of_le hlength))

end Simulation

end Reader

end CardTable.Script
