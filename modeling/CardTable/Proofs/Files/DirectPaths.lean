import CardTable.Modules.Resolution
import CardTable.Proofs.Files.Places
import Mathlib.Tactic.Lemma

set_option autoImplicit false

/-!
# Paths without detours

The steps of a normalized path go up first and then down: behind a name there are only names. So no
directory on the way matters that is left again by a `..`. The files that a specifier may stand for
have such paths, whatever the specifier says.

## Main definitions

* `CardTable.Path.IsDirect` — steps that go up first and then down.

## Main results

* `CardTable.Path.isDirect_normalize` — normalized paths go up first and then down.
* `CardTable.isDirect_of_mem_candidates` — and so do those that a specifier may stand for.
-/

namespace CardTable

namespace Path

/-! ## Folded components -/

/-- Whether a component is a name. -/
def Component.isName : Component → Bool
  | .name _ => true
  | _ => false

/-- Behind a name there are only names. -/
def IsDirect (steps : List Component) : Prop :=
  steps.Pairwise fun c d => c.isName = true → d.isName = true

/-- What is behind a name are names. -/
lemma IsDirect.exists_names {s : String} {rest : List Component}
    (h : IsDirect (.name s :: rest)) : ∃ names : List String, rest = names.map .name := by
  have hnames : ∀ c ∈ rest, c.isName = true :=
    fun c hc => (List.pairwise_cons.1 h).1 c hc rfl
  clear h
  induction rest with
  | nil => exact ⟨[], rfl⟩
  | cons c rest ih =>
    obtain ⟨hc, hrest⟩ := List.forall_mem_cons.1 hnames
    obtain ⟨names, rfl⟩ := ih hrest
    cases c with
    | name s => exact ⟨s :: names, rfl⟩
    | _ => cases hc

/-- A name can follow at the end. -/
lemma IsDirect.concat {steps : List Component} (h : IsDirect steps) (s : String) :
    IsDirect (steps ++ [.name s]) :=
  List.pairwise_append.2 ⟨h, List.pairwise_singleton _ _, fun _ _ d hd _ => by
    rw [List.mem_singleton.1 hd]
    rfl⟩

/-- One step of folding keeps the components, whose last one stands first, in this order. -/
lemma isDirect_foldStep {folded : List Component} (h : IsDirect folded.reverse) (c : Component) :
    IsDirect (foldStep folded c).reverse := by
  cases c with
  | current => exact h
  | root => exact List.pairwise_singleton _ _
  | name s =>
    show IsDirect (.name s :: folded).reverse
    rw [List.reverse_cons]
    exact h.concat s
  | parent =>
    have hkept : (∀ d ∈ folded, d.isName = false) → IsDirect (.parent :: folded).reverse := by
      intro hnone
      rw [List.reverse_cons]
      refine List.pairwise_append.2 ⟨h, List.pairwise_singleton _ _, fun d hd _ _ hname => ?_⟩
      cases (hnone d (List.mem_reverse.1 hd)).symm.trans hname
    unfold foldStep
    dsimp only
    split
    · rw [List.reverse_cons] at h
      exact (List.pairwise_append.1 h).1
    · exact h
    · next hname hroot =>
      refine hkept fun d hd => ?_
      -- a name is nowhere if it is not at the end
      cases folded with
      | nil => exact absurd hd List.not_mem_nil
      | cons last before =>
        have hlast : last.isName = false := by
          cases last with
          | name s => exact absurd rfl (hname s before)
          | _ => rfl
        rcases List.mem_cons.1 hd with rfl | hbefore
        · exact hlast
        · rw [List.reverse_cons] at h
          have hbehind := (List.pairwise_append.1 h).2.2 d (List.mem_reverse.2 hbefore) last
            (List.mem_singleton_self last)
          exact Bool.eq_false_iff.2 fun hd => by cases hlast.symm.trans (hbehind hd)

/-- Folding keeps the components in this order. -/
lemma isDirect_fold {folded : List Component} (h : IsDirect folded.reverse)
    (cs : List Component) : IsDirect (fold folded cs).reverse := by
  induction cs generalizing folded with
  | nil => exact h
  | cons c cs ih => exact ih (isDirect_foldStep h c)

/-! ## Normalized paths -/

/-- The text of a component that a path can spell is a stretch that stands for it. -/
lemma componentOf?_text {c : Component} (hroot : c ≠ .root) (h : ∀ s, c = .name s → IsName s) :
    componentOf? c.text = some c := by
  cases c with
  | root => exact absurd rfl hroot
  | current => rfl
  | parent => rfl
  | name s => exact (h s rfl).2

/-- Components that a path can spell are the steps of the path that is made of them, but for the
root. -/
lemma steps_ofComponents {cs : List Component} (h : ∀ s, .name s ∈ cs → IsName s) :
    (ofComponents cs).steps = cs.filter (· ≠ .root) := by
  have htexts : (cs.map Component.text).filterMap componentOf? = cs.filter (· ≠ .root) := by
    induction cs with
    | nil => rfl
    | cons c cs ih =>
      have hrest := ih fun s hs => h s (List.mem_cons_of_mem _ hs)
      by_cases hroot : c = .root
      · subst hroot
        exact hrest
      · have hc := componentOf?_text hroot fun s hs => h s (hs ▸ List.mem_cons_self ..)
        rw [List.map_cons, List.filterMap_cons_some hc, List.filter_cons_of_pos (by simpa using hroot),
          hrest]
  unfold ofComponents
  split
  · next hbare =>
    subst hbare
    rfl
  · rw [steps, String.toList_ofList, ← htexts]
    cases cs with
    | nil => rfl
    | cons c cs =>
      rw [splitSlash_joinSlash (by simp)]
      intro piece hpiece
      obtain ⟨d, hd, rfl⟩ := List.mem_map.1 hpiece
      cases d with
      | name s => exact (h s hd).1
      | _ => decide

/-- **Normalized paths go up first and then down.** -/
theorem isDirect_normalize (p : Path) : IsDirect p.normalize.steps := by
  have hnames : ∀ s, .name s ∈ (fold [] p.components).reverse → IsName s := by
    intro s hs
    rcases mem_of_mem_fold (List.mem_reverse.1 hs) with hnone | hmem
    · exact absurd hnone List.not_mem_nil
    · exact isName_of_mem_steps (mem_steps_of_mem_components hmem fun heq => by cases heq)
  have hnone : IsDirect ([] : List Component).reverse := List.Pairwise.nil
  rw [normalize, steps_ofComponents hnames]
  exact (isDirect_fold hnone p.components).filter _

/-! ## Files that a specifier may stand for -/

/-- A text that is put behind a path makes its last stretch longer. -/
lemma splitSlash_append_of_not_mem {suffix : List Char} (h : '/' ∉ suffix) (text : List Char) :
    ∃ front last, splitSlash text = front ++ [last] ∧
      splitSlash (text ++ suffix) = front ++ [last ++ suffix] := by
  induction text with
  | nil => exact ⟨[], [], rfl, splitSlash_of_not_mem h⟩
  | cons c text ih =>
    obtain ⟨front, last, htext, hbehind⟩ := ih
    rw [List.cons_append, splitSlash, splitSlash, htext, hbehind]
    split
    · exact ⟨[] :: front, last, rfl, rfl⟩
    · cases front with
      | nil => exact ⟨[], c :: last, rfl, rfl⟩
      | cons first front => exact ⟨(c :: first) :: front, last, rfl, rfl⟩

/-- A suffix makes the last step a name. -/
lemma IsDirect.withSuffix {p : Path} (h : IsDirect p.steps) {suffix : String}
    (hslash : '/' ∉ suffix.toList) (hlong : 2 < suffix.toList.length) :
    IsDirect (p.withSuffix suffix).steps := by
  obtain ⟨front, last, hpieces, hbehind⟩ := splitSlash_append_of_not_mem hslash p.text.toList
  have hname : 2 < (last ++ suffix.toList).length := by
    rw [List.length_append]
    exact Nat.lt_add_left _ hlong
  rw [steps, hpieces, List.filterMap_append] at h
  rw [steps, Path.withSuffix, String.toList_append, hbehind, List.filterMap_append,
    List.filterMap_cons_some (componentOf?_of_length hname)]
  exact IsDirect.concat (List.pairwise_append.1 h).1 _

end Path

/-- **The files that a specifier may stand for** have paths that go up first and then down. -/
theorem isDirect_of_mem_candidates {importer p : Path} {specifier : String}
    (h : p ∈ candidates importer specifier) : Path.IsDirect p.steps := by
  have hbase := Path.isDirect_normalize ((importer.parent?.getD ⟨""⟩).join ⟨specifier⟩)
  unfold candidates at h
  dsimp only at h
  generalize ((importer.parent?.getD ⟨""⟩).join ⟨specifier⟩).normalize = base at h hbase
  simp only [List.mem_cons, List.not_mem_nil, or_false] at h
  rcases h with rfl | rfl | rfl
  · exact hbase.withSuffix (by decide) (by decide)
  · exact hbase
  · rw [Path.steps_join rfl]
    exact hbase.concat "index.ts"

end CardTable
