import CardTable.Files.Tree
import CardTable.Proofs.Files.Paths

set_option autoImplicit false

/-!
# The paths of places

A place is spelled by the names on the way to it. If these are names that a path can spell, then the
path of the place leads to it, is absolute and stays as it is when it is normalized, so that places
and their paths correspond to each other. Paths only lead to such places, provided that they start
at one.

## Main definitions

* `CardTable.Path.IsName` — the names that a path can spell.
* `CardTable.Location.IsSpelled` — the places that a path can spell.

## Main results

* `CardTable.Location.isSpelled_location` — a path names a place that a path can spell.
* `CardTable.Location.steps_path` — the steps of the path of a place.
* `CardTable.Location.normalize_path` — the path of a place is normalized.
* `CardTable.Location.path_injective` — no two places have one path.
-/

namespace CardTable

namespace Path

/-! ## Names -/

/-- Whether a path can spell the name: it has no slash, and stands for itself. -/
def IsName (s : String) : Prop :=
  '/' ∉ s.toList ∧ componentOf? s.toList = some (.name s)

/-- The names in a path are names that a path can spell. -/
lemma isName_of_mem_steps {p : Path} {s : String} (h : .name s ∈ p.steps) : IsName s := by
  obtain ⟨piece, hpiece, hcomponent⟩ := List.mem_filterMap.1 h
  have hs := eq_of_componentOf?_eq_name hcomponent
  have hlist : s.toList = piece := by rw [hs, String.toList_ofList]
  rw [IsName, hlist]
  exact ⟨slash_not_mem_of_mem_splitSlash hpiece, hcomponent⟩

/-- Folding brings no new names. -/
lemma mem_of_mem_fold {folded cs : List Component} {s : String}
    (h : .name s ∈ fold folded cs) : .name s ∈ folded ∨ .name s ∈ cs := by
  induction cs generalizing folded with
  | nil => exact .inl h
  | cons c cs ih =>
    have h : .name s ∈ fold (foldStep folded c) cs := h
    rcases ih h with hstep | hrest
    · have hcase : .name s ∈ folded ∨ .name s = c := by
        unfold foldStep at hstep
        split at hstep
        · exact .inl hstep
        · cases List.mem_singleton.1 hstep
        · exact (List.mem_cons.1 hstep).symm
        · split at hstep
          · exact .inl (List.mem_cons_of_mem _ hstep)
          · exact .inl hstep
          · exact .inl ((List.mem_cons.1 hstep).resolve_left nofun)
      exact hcase.imp_right fun heq => List.mem_cons.2 (.inl heq)
    · exact .inr (List.mem_cons_of_mem _ hrest)

end Path

namespace Location

open CardTable.Path (Component IsName componentOf? fold foldStep joinSlash splitSlash)

/-- Whether a path can spell the place. -/
def IsSpelled (loc : Location) : Prop :=
  ∀ s ∈ loc, IsName s

/-- **A path names a place that a path can spell**, if it starts at one. -/
theorem isSpelled_location {start : Location} (h : start.IsSpelled) (p : Path) :
    IsSpelled (p.location start) := by
  intro s hs
  obtain ⟨c, hc, hname⟩ := List.mem_filterMap.1 hs
  obtain rfl : c = .name s := by
    split at hname
    · exact congrArg _ (Option.some.inj hname)
    · cases hname
  rcases Path.mem_of_mem_fold (List.mem_reverse.1 hc) with hroot | hsteps
  · cases List.mem_singleton.1 hroot
  · split at hsteps
    · exact Path.isName_of_mem_steps hsteps
    · rcases List.mem_append.1 hsteps with hstart | hsteps
      · obtain ⟨name, hmem, heq⟩ := List.mem_map.1 hstart
        exact Component.name.inj heq ▸ h name hmem
      · exact Path.isName_of_mem_steps hsteps

/-! ## Paths -/

/-- The path of a place is absolute. -/
lemma isAbsolute_path (loc : Location) : loc.path.isAbsolute = true := by
  simp [path, Path.isAbsolute]

/-- Names stand for themselves. -/
lemma filterMap_names {loc : Location} (h : loc.IsSpelled) :
    (loc.map String.toList).filterMap componentOf? = loc.map .name := by
  induction loc with
  | nil => rfl
  | cons s loc ih =>
    rw [List.map_cons, List.filterMap_cons_some (h s (List.mem_cons_self ..)).2, List.map_cons,
      ih fun other hother => h other (List.mem_cons_of_mem _ hother)]

/-- **The steps of the path of a place** are the names on the way to it. -/
theorem steps_path {loc : Location} (h : loc.IsSpelled) : loc.path.steps = loc.map .name := by
  have htext : loc.path.text.toList = '/' :: joinSlash (loc.map String.toList) :=
    String.toList_ofList
  have hempty : componentOf? [] = none := rfl
  rw [Path.steps, htext, splitSlash, if_pos rfl, List.filterMap_cons_none hempty,
    ← filterMap_names h]
  cases loc with
  | nil => simp [joinSlash, splitSlash, hempty]
  | cons name names =>
    rw [Path.splitSlash_joinSlash (by simp)]
    intro piece hpiece
    obtain ⟨s, hs, rfl⟩ := List.mem_map.1 hpiece
    exact (h s hs).1

/-- The components of the path of a place. -/
lemma components_path {loc : Location} (h : loc.IsSpelled) :
    loc.path.components = .root :: loc.map .name := by
  have hnames : (loc.map Component.name).filter (· ≠ .current) = loc.map .name := by
    refine List.filter_eq_self.2 fun c hc => ?_
    obtain ⟨s, -, rfl⟩ := List.mem_map.1 hc
    exact decide_eq_true nofun
  rw [Path.components, if_pos (isAbsolute_path loc), steps_path h, hnames]

/-- Names are folded to themselves. -/
lemma fold_names (folded : List Component) (names : List String) :
    fold folded (names.map .name) = (names.map Component.name).reverse ++ folded := by
  induction names generalizing folded with
  | nil => rfl
  | cons s names ih =>
    show fold (foldStep folded (.name s)) (names.map .name) = _
    rw [ih, List.map_cons, List.reverse_cons, List.append_assoc]
    rfl

/-- **The path of a place is normalized.** -/
theorem normalize_path {loc : Location} (h : loc.IsSpelled) : loc.path.normalize = loc.path := by
  have hfold : (fold [] (.root :: loc.map .name)).reverse = .root :: loc.map .name := by
    show (fold [.root] (loc.map .name)).reverse = _
    rw [fold_names, List.reverse_append, List.reverse_reverse]
    rfl
  rw [Path.normalize, components_path h, hfold]
  cases loc with
  | nil => rfl
  | cons name names =>
    have htexts : (names.map Component.name).map Component.text = names.map String.toList := by
      rw [List.map_map]
      rfl
    rw [Path.ofComponents, if_neg (by simp), path]
    simp only [List.map_cons, htexts]
    rfl

/-- **No two places have one path.** -/
theorem path_injective {loc other : Location} (h : loc.IsSpelled) (hother : other.IsSpelled)
    (heq : loc.path = other.path) : loc = other := by
  have hsteps : loc.map Component.name = other.map .name := by
    rw [← steps_path h, heq, steps_path hother]
  exact (List.map_inj_right fun _ _ hname => Component.name.inj hname).1 hsteps

end Location

end CardTable
