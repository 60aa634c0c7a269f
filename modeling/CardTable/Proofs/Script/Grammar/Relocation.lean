import CardTable.Proofs.Script.Grammar.Erasure
import CardTable.Proofs.Script.Grammar.Completeness

set_option autoImplicit false

/-!
# Expressions of a text that stands elsewhere

An expression has the same values wherever its text stands, and whatever stands behind the closing
bracket that ends it. The stretches of templates are read as texts of their own, so this is shown
for them first, from the inner ones to the outer ones.

## Main results

* `CardTable.Script.substitutionExpr_refines` — a stretch of a template has the same values wherever
  it stands.
* `CardTable.Script.Reader.reads_of_twin` — so has an expression up to a closing bracket.
-/

namespace CardTable.Script

namespace Reader

variable {us us' ts ts' : List Lexeme}

/-- The same tokens in two texts, in front of what is compared already. -/
lemma Erases.of_twin {i j : Nat} (h : List.Forall₂ (Lexeme.Twin i j) ts ts') :
    Erases us us' .outside (ts ++ us) (ts' ++ us') := by
  induction h with
  | nil => exact .behind
  | cons ht _ ih => exact .keep ht.alike ih

/-- A list is no shorter than what is compared already. -/
lemma Erases.length_le {stage : Stage} (h : Erases us us' stage ts ts') :
    us.length ≤ ts.length := by
  induction h with
  | behind => exact Nat.le_refl _
  | typed =>
    simp only [List.length_cons, List.length_append]
    omega
  | _ =>
    simp only [List.length_cons]
    omega

/-- Where one list goes on with what is compared already, so does the other one. -/
lemma Erases.eq_of_behind (h : Erases us us' .outside us ts') : ts' = us' := by
  generalize hts : us = ts at h
  cases h with
  | behind => rfl
  | keep _ h =>
    have := h.length_le
    simp only [List.length_cons] at this
    omega
  | keyword _ _ _ h =>
    have := h.length_le
    simp only [List.length_cons] at this
    omega

/-- **An expression up to a closing bracket**, or up to the end, has the same values wherever it
stands.

**Proof sketch.** Nothing is erased between the two lists, so that the expression is read in both
(`reads_erases`), and both end in front of the same tokens. -/
theorem reads_of_twin {inner inner' : Substitution → Expr}
    (hinner : ∀ s s', s.Alike s' → (inner s).Refines (inner' s')) (hend : EndAlike us us')
    {i j : Nat} (htwin : List.Forall₂ (Lexeme.Twin i j) ts ts') {e : Expr}
    (h : Reads inner .expression (ts ++ us) (.expr e) us) :
    ∃ e', Reads inner' .expression (ts' ++ us') (.expr e') us' ∧ e.Refines e' := by
  obtain ⟨_, behind', h', hnode, hbehind⟩ :=
    reads_erases hinner hend h (Erases.of_twin htwin) (Nat.le_refl _)
  obtain ⟨e', rfl, he⟩ := hnode.exists_expr
  rcases hbehind with hbehind | hstuck
  · obtain rfl := hbehind.eq_of_behind
    exact ⟨e', h', he⟩
  · rcases hend with ⟨rfl, -⟩ | ⟨hclose, -⟩
    · obtain ⟨_, _, _, _, heq, -⟩ := hstuck
      cases heq
    · rw [hstuck.atSign_eq_false] at hclose
      cases hclose

end Reader

/-- An expression that fills a stretch of a template was read to its end. -/
lemma exists_reads_of_filled {inner : Substitution → Expr} {ts : List Lexeme} {fin : TextEnd}
    {scope : Scope} {v : Option Value}
    (h : Expr.eval scope (match Reader.expression fin inner ts with
      | .cut e => e
      | .whole e [] _ => e
      | .whole e (t :: _) _ => .cut e ⟨t.offset, .behindSubstitution⟩) = .ok v) :
    ∃ e, Reader.Reads inner .expression ts (.expr e) [] ∧ e.eval scope = .ok v := by
  have hsound := (Reader.areSound fin inner ts).expression
  cases hr : Reader.expression fin inner ts with
  | cut e =>
    rw [hr] at h hsound
    exact absurd h (hsound _ _)
  | whole e behind hshort =>
    rw [hr] at h hsound
    cases behind with
    | nil => exact ⟨e, hsound, h⟩
    | cons t rest => exact absurd h (Expr.fails_cut _ _ _ _)

/-- **A stretch of a template** has the same values wherever it stands.

**Proof sketch.** Strong induction on the length of the stretch. Its tokens are the same wherever it
stands (`exists_lexemes_of_twin`), the templates among them have shorter stretches, which have the
same values by induction, and then so has the expression (`Reader.reads_of_twin`). -/
theorem substitutionExpr_refines {s s' : Substitution} (h : s.Alike s') :
    (substitutionExpr s).Refines (substitutionExpr s') := by
  induction hn : s.source.length using Nat.strongRecOn generalizing s s' with
  | _ n ih =>
  subst hn
  obtain ⟨i, j, htwin⟩ := h
  intro scope v hv
  rw [substitutionExpr] at hv ⊢
  rcases hts : lexemes s.source with f | ts
  · rw [hts] at hv
    exact absurd hv (Expr.fails_cut _ _ _ _)
  obtain ⟨ts', hts', hsame⟩ := exists_lexemes_of_twin hts htwin.source
  rw [hts] at hv
  rw [hts']
  -- what stands in a template inside the stretch is shorter in both texts
  have hinner : ∀ u u' : Substitution, u.Alike u' →
      Expr.Refines (if u.source.length < s.source.length then substitutionExpr u else .constant none)
        (if u'.source.length < s'.source.length then substitutionExpr u' else .constant none) := by
    rintro u u' ⟨k, l, hu⟩
    rw [← hu.source.length_eq, ← htwin.source.length_eq]
    split
    · next hshort => exact ih _ hshort ⟨k, l, hu⟩ rfl
    · exact .refl _
  obtain ⟨e, hreads, he⟩ := exists_reads_of_filled hv
  rw [← List.append_nil ts] at hreads
  obtain ⟨e', hreads', hrefines⟩ := Reader.reads_of_twin hinner (.inl ⟨rfl, rfl⟩) hsame hreads
  rw [List.append_nil] at hreads'
  obtain ⟨hshort, hwhole⟩ := (Reader.expression_isWhole_iff (.of s'.stop ts')).2 hreads'
  dsimp only
  rw [hwhole]
  exact hrefines scope v he

end CardTable.Script
