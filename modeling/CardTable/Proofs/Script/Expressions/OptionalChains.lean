import CardTable.Proofs.Script.Expressions.InfixOperators

set_option autoImplicit false

/-!
# Chains of accesses that give up

An optional access to null or to `undefined` gives up, and so does the whole chain: it is
`undefined`, and no access behind the first one is made. The keys in brackets are evaluated all the
same, and one that has no value leaves the chain without a value.

## Main definitions

* `CardTable.Script.IsChain` — texts that are chains of accesses.
* `CardTable.Script.Link.key?` — the key of an access that is evaluated.

## Main results

* `CardTable.Script.evalLinks_none_iff` — the accesses behind one that gave up.
* `CardTable.Script.evaluateIn_chain` — a chain behind null or `undefined`.
-/

namespace CardTable.Script

open Reader

/-! ## Chains that have given up -/

/-- Whether the access gives up on null and `undefined`. -/
def Link.isOptional : Link → Bool
  | .named optional _ => optional
  | .computed optional _ => optional

/-- The key of the access, if it is an expression. -/
def Link.key? : Link → Option Expr
  | .named _ _ => none
  | .computed _ key => some key

/-- All keys in the chain have values. -/
def KeysEvaluate (scope : Scope) (links : List Link) : Prop :=
  ∀ key ∈ links.filterMap Link.key?, ∃ k, key.eval scope = .ok k

section Links

variable {scope : Scope} {key : Expr} {links : List Link} {v : Option Value}

/-- A name needs no evaluation. -/
lemma keysEvaluate_named (optional : Bool) (name : String) :
    KeysEvaluate scope (.named optional name :: links) ↔ KeysEvaluate scope links :=
  Iff.rfl

/-- A key is evaluated before those behind it. -/
lemma keysEvaluate_computed (optional : Bool) :
    KeysEvaluate scope (.computed optional key :: links) ↔
      (∃ k, key.eval scope = .ok k) ∧ KeysEvaluate scope links :=
  List.forall_mem_cons

/-- **The accesses behind one that gave up** are not made, but their keys are evaluated. -/
theorem evalLinks_none_iff (scope : Scope) (links : List Link) (r : Reached) :
    evalLinks scope none links = .ok r ↔ r = none ∧ KeysEvaluate scope links := by
  induction links with
  | nil =>
    rw [evalLinks, Except.ok.injEq, eq_comm]
    simp [KeysEvaluate]
  | cons link rest ih =>
    cases link with
    | named optional name => simp only [evalLinks, access, ok_bind, ih, keysEvaluate_named]
    | computed optional key =>
      simp only [evalLinks, access, bind_eq_ok_iff, ok_bind, ih, keysEvaluate_computed,
        exists_and_right]
      exact and_left_comm

/-- A chain that begins with an optional access gives up on null and `undefined`. -/
lemma evalLinks_of_isNullish (hv : isNullish v = true) {link : Link}
    (hlink : link.isOptional = true) (r : Reached) :
    evalLinks scope (some v) (link :: links) = .ok r ↔
      r = none ∧ KeysEvaluate scope (link :: links) := by
  cases link with
  | named optional name =>
    obtain rfl : optional = true := hlink
    simp only [evalLinks, access, Bool.true_and, if_pos hv, ok_bind, evalLinks_none_iff,
      keysEvaluate_named]
  | computed optional key =>
    obtain rfl : optional = true := hlink
    simp only [evalLinks, access, Bool.true_and, if_pos hv, bind_eq_ok_iff, ok_bind,
      evalLinks_none_iff, keysEvaluate_computed, exists_and_right]
    exact and_left_comm

end Links

/-! ## Texts of chains -/

/-- The text `chain` consists of accesses: with a closing bracket behind it, it is read as `links`
up to that bracket. -/
def IsChain (chain : String) (links : List Link) : Prop :=
  Fills ')' .links chain.toList (.links links)

section Chains

variable {bindings : List (String × Value)} {e chain : String} {v : Option Value}
  {links : List Link}

/-- The value of an operand in brackets with a chain behind it. -/
lemma exists_evaluateIn_chain (he : IsOperand bindings e v) (hchain : IsChain chain links) :
    ∃ links', LinksRefine links links' ∧ LinksRefine links' links ∧
      evaluateIn (scopeOf bindings) ("return (" ++ e ++ ")" ++ chain) =
        (evalLinks (scopeOf bindings) (some v) links').map (·.getD none) := by
  let o := 8 + Text.byteCount (e.toList ++ [')'])
  obtain ⟨open', ts, close, tree, hscans, hopen, hclose, heval, hreads⟩ :=
    he.exists_scans 7 (locate o chain.toList)
  obtain ⟨us, node, hus, hrefines, hrefines', hlinks⟩ := hchain.exists_lexemes (by decide) o
  obtain ⟨links', rfl, hrefines⟩ := hrefines.exists_links
  refine ⟨links', hrefines, hrefines', ?_⟩
  have hend : EndsPart [] .links := ⟨rfl, rfl⟩
  have hlinks := hlinks [] hend
  rw [List.append_nil] at hlinks
  have hexpression :=
    reads_expression_of_unary (.plain (.bracketed hopen (hreads us) hclose) hlinks)
    (.inl rfl)
  have hsource : locate 7 ("(" ++ e ++ ")" ++ chain).toList =
      ⟨7, '('⟩ :: (locate 8 (e.toList ++ [')']) ++ locate o chain.toList) := by
    rw [← locate_append, String.toList_append, String.toList_append, String.toList_append]
    rfl
  have hlexemes : lexemes (locate 7 ("(" ++ e ++ ")" ++ chain).toList) =
      .ok (open' :: (ts ++ close :: us)) := by
    rw [hsource, hscans.lexemes_eq, hus]
    simp [Except.map]
  rw [return_bracketed, String.append_assoc, evaluateIn_of_reads _ hlexemes hexpression,
    eval_linked, Expr.eval, heval, ok_bind]
  cases evalLinks (scopeOf bindings) (some v) links' <;> rfl

end Chains

/-- **A chain behind null or `undefined`** that begins with an optional access is `undefined` if all
keys in it have values, and has no value otherwise: no access fails, but a key may.

**Proof sketch.** The body has the value of the links, evaluated from the nullish operand on. The
first link gives `undefined` without an access, and so do those behind it, but each evaluates its
key (`evalLinks_of_isNullish`). -/
theorem evaluateIn_chain {bindings : List (String × Value)} {e chain : String} {v : Option Value}
    {link : Link} {links : List Link} (he : IsOperand bindings e v) (hv : isNullish v = true)
    (hchain : IsChain chain (link :: links)) (hlink : link.isOptional = true) (w : Option Value) :
    evaluateIn (scopeOf bindings) ("return (" ++ e ++ ")" ++ chain) = .ok w ↔
      w = none ∧ KeysEvaluate (scopeOf bindings) (link :: links) := by
  obtain ⟨links', hrefines, hrefines', hbody⟩ := exists_evaluateIn_chain he hchain
  have hsame : ∀ r, evalLinks (scopeOf bindings) (some v) links' = .ok r ↔
      evalLinks (scopeOf bindings) (some v) (link :: links) = .ok r :=
    fun r => ⟨hrefines' _ _ r, hrefines _ _ r⟩
  simp only [hbody, map_eq_ok_iff, hsame, evalLinks_of_isNullish hv hlink]
  constructor
  · rintro ⟨r, ⟨rfl, hkeys⟩, rfl⟩
    exact ⟨rfl, hkeys⟩
  · rintro ⟨rfl, hkeys⟩
    exact ⟨none, ⟨rfl, hkeys⟩, rfl⟩

/-- A key that is not in scope leaves a chain behind null without a value, although the chain has
given up in front of it. -/
theorem evaluateIn_null_missing : IsOperand [] "null" (some .null) ∧
    IsChain "?.[missing]" [.computed true (.name "missing")] ∧
    ∀ w, evaluateIn (scopeOf []) "return (null)?.[missing]" ≠ .ok w := by
  have hnull : IsOperand [] "null" (some .null) :=
    isOperand_of_atom (.first rfl (by decide) rfl (.first rfl (by decide) rfl (.nil [])))
      rfl rfl rfl
  have hchain : IsChain "?.[missing]" [.computed true (.name "missing")] := by
    have hscans : ∃ t₁ t₂ t₃ t₄ t₅ : Lexeme,
        Scans (locate 0 ("?.[missing]".toList ++ [')'])) [t₁, t₂, t₃, t₄, t₅] [] ∧
          t₁.token = .sign .optionalDot ∧ IsPunct '[' t₂ ∧ t₃.token = .word "missing" ∧
          IsPunct ']' t₄ ∧ IsPunct ')' t₅ :=
      ⟨_, _, _, _, _, .first rfl (by decide) rfl (.first rfl (by decide) rfl
        (.first rfl (by decide) rfl (.first rfl (by decide) rfl
          (.first rfl (by decide) rfl (.nil []))))), rfl, rfl, rfl, rfl, rfl⟩
    obtain ⟨t₁, t₂, t₃, t₄, t₅, hscans, h₁, h₂, h₃, h₄, h₅⟩ := hscans
    have hend : IsEnd [t₄, t₅] := .of_isPunct h₄ (by decide) _
    have hname : Reads substitutionExpr .primary [t₃, t₄, t₅] (.expr (.name "missing")) [t₄, t₅] :=
      .name h₃ rfl (by decide) (h₄.atSign_eq_false (by decide) _)
    have hkey := reads_expression_of_unary (reads_unary_of_primary hname hend) hend
    exact ⟨[t₁, t₂, t₃, t₄], t₅, hscans, h₅, .optionalComputed h₁ h₂ (.index hkey h₄)
      (.linksEnd (endsLinks_of_isPunct h₅ (by decide)))⟩
  refine ⟨hnull, hchain, fun w hw => ?_⟩
  have hbody : "return (null)?.[missing]" = "return (" ++ "null" ++ ")" ++ "?.[missing]" := by
    decide
  rw [hbody, evaluateIn_chain hnull rfl hchain rfl] at hw
  obtain ⟨-, hkeys⟩ := hw
  obtain ⟨k, hk⟩ := hkeys (.name "missing") (List.mem_cons_self ..)
  simp [Expr.eval, lookup, scopeOf, Fields.ofEntries, Fields.insertAll, Fields.get?] at hk

end CardTable.Script
