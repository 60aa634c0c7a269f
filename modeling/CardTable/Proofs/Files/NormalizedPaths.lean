import CardTable.Proofs.Files.DirectPaths

set_option autoImplicit false

/-!
# Normalized paths as keys

A normalized path is made of the root and names, or of steps up and names behind them. Such
components are folded to themselves, so that a normalized path stays as it is, and it makes no
difference whether a directory is normalized before a path is seen from it. The files that a
specifier may stand for have normalized paths, and the place that a path names is given by the path
from the root, normalized. So different spellings of one path lead to one place.

## Main definitions

* `CardTable.Path.IsFolded` — folded components: names behind the root or behind steps up.
* `CardTable.Path.IsNormal` — the paths that are made of them.

## Main results

* `CardTable.Path.isFolded_fold` — a path is folded to such components.
* `CardTable.Path.IsFolded.components_ofComponents` — they are those of the path made of them.
* `CardTable.Path.normalize_join` — a path seen from a directory is folded behind the directory.
* `CardTable.Path.path_location` — the place that a path names.
* `CardTable.Path.normalize_isCanonical` — normalized paths are keys.
-/

namespace CardTable

namespace Path

/-! ## Folded components -/

/-- **Folded components**, whose last one stands first, of an absolute or of a relative path. There
is no `.`, and `..` only in front of a relative path. -/
inductive IsFolded : Bool → List Component → Prop
  /-- The root. -/
  | root : IsFolded true [.root]
  /-- Steps up. -/
  | ups (n : Nat) : IsFolded false (List.replicate n .parent)
  /-- A name behind others. -/
  | name {absolute : Bool} {folded : List Component} {s : String} (h : IsFolded absolute folded)
    (hs : IsName s) : IsFolded absolute (.name s :: folded)

variable {absolute : Bool} {folded cs : List Component} {c : Component} {p q : Path} {s : String}

/-- Behind steps up there may be one more. -/
lemma foldStep_ups (n : Nat) :
    foldStep (List.replicate n .parent) .parent = List.replicate (n + 1) .parent := by
  cases n <;> rfl

namespace IsFolded

/-- One step leads from folded components to folded ones. -/
lemma foldStep (h : IsFolded absolute folded) (hroot : c ≠ .root)
    (hname : ∀ s, c = .name s → IsName s) : IsFolded absolute (foldStep folded c) := by
  cases c with
  | root => exact absurd rfl hroot
  | current => exact h
  | name s => exact h.name (hname s rfl)
  | parent =>
    cases h with
    | root => exact .root
    | ups n => exact foldStep_ups n ▸ .ups (n + 1)
    | name h hs => exact h

/-- **Steps lead from folded components to folded ones.** -/
theorem fold (h : IsFolded absolute folded) (hroot : .root ∉ cs)
    (hname : ∀ s, .name s ∈ cs → IsName s) : IsFolded absolute (fold folded cs) := by
  induction cs generalizing folded with
  | nil => exact h
  | cons c cs ih =>
    rw [List.mem_cons, not_or] at hroot
    refine ih (h.foldStep (Ne.symm hroot.1) fun s hs => ?_) hroot.2 fun s hs => ?_
    · exact hname s (hs ▸ List.mem_cons_self ..)
    · exact hname s (List.mem_cons_of_mem _ hs)

/-- **Folded components are folded to themselves.**

**Proof sketch.** Induction on the shape of the folded components: folded once more, a step up
stands behind nothing but steps up and stays, and a name is added to what is in front of it. -/
theorem fold_reverse (h : IsFolded absolute folded) : Path.fold [] folded.reverse = folded := by
  induction h with
  | root => rfl
  | ups n =>
    rw [List.reverse_replicate]
    induction n with
    | zero => rfl
    | succ n ih =>
      rw [List.replicate_succ', fold_append, ih, ← List.replicate_succ', ← foldStep_ups]
      rfl
  | name h hs ih =>
    rw [List.reverse_cons, fold_append, ih]
    rfl

/-- Steps up and names make up folded components. -/
lemma exists_names (h : IsFolded absolute folded) : ∃ ups, ∃ names : List String,
    folded.reverse = (if absolute then [.root] else List.replicate ups .parent) ++ names.map .name ∧
      ∀ s ∈ names, IsName s := by
  induction h with
  | root => exact ⟨0, [], rfl, nofun⟩
  | ups n => exact ⟨n, [], by simp, nofun⟩
  | @name absolute folded s h hs ih =>
    obtain ⟨ups, names, hnames, hall⟩ := ih
    refine ⟨ups, names ++ [s], ?_, List.forall_mem_append.2 ⟨hall, List.forall_mem_singleton.2 hs⟩⟩
    rw [List.reverse_cons, hnames, List.map_append, List.append_assoc]
    rfl

/-- The names are names that a path can spell. -/
lemma isName (h : IsFolded absolute folded) (hs : .name s ∈ folded) : IsName s := by
  induction h with
  | root => cases List.mem_singleton.1 hs
  | ups n => cases List.eq_of_mem_replicate hs
  | name h hname ih =>
    rcases List.mem_cons.1 hs with heq | hs
    · exact Component.name.inj heq ▸ hname
    · exact ih hs

/-- The last component is the root on its own, or behind folded components. -/
lemma exists_last (h : IsFolded absolute folded) : folded = [] ∨ folded = [.root] ∨
    ∃ last rest, folded = last :: rest ∧ IsFolded absolute rest ∧ last ≠ .root := by
  cases h with
  | root => exact .inr (.inl rfl)
  | ups n =>
    cases n with
    | zero => exact .inl rfl
    | succ n => exact .inr (.inr ⟨_, _, rfl, .ups n, nofun⟩)
  | name h hs => exact .inr (.inr ⟨_, _, rfl, h, nofun⟩)

/-- There is no step that goes nowhere. -/
lemma current_notMem (h : IsFolded absolute folded) : .current ∉ folded := by
  induction h with
  | root => decide
  | ups n => exact fun hmem => by cases List.eq_of_mem_replicate hmem
  | name h hname ih => exact List.not_mem_cons_of_ne_of_not_mem nofun ih

/-- The root is in front of relative components nowhere. -/
lemma root_notMem (h : IsFolded false folded) : .root ∉ folded := by
  generalize habsolute : false = absolute at h
  induction h with
  | root => cases habsolute
  | ups n => exact fun hmem => by cases List.eq_of_mem_replicate hmem
  | name h hname ih => exact List.not_mem_cons_of_ne_of_not_mem nofun (ih habsolute)

end IsFolded

/-! ## Paths of folded components -/

/-- No step is the root. -/
lemma root_notMem_steps (p : Path) : .root ∉ p.steps := by
  intro hmem
  obtain ⟨piece, -, hpiece⟩ := List.mem_filterMap.1 hmem
  unfold componentOf? at hpiece
  split at hpiece
  · cases hpiece
  split at hpiece
  · cases hpiece
  split at hpiece <;> cases hpiece

/-- Steps that go nowhere leave no trace. -/
lemma fold_filter_current (folded cs : List Component) :
    fold folded (cs.filter (· ≠ .current)) = fold folded cs := by
  induction cs generalizing folded with
  | nil => rfl
  | cons c cs ih =>
    rw [List.filter_cons]
    split
    · exact ih _
    · next hcurrent =>
      obtain rfl : c = .current := by simpa using hcurrent
      exact ih _

/-- A path is folded from where it starts. -/
lemma fold_components (p : Path) :
    fold [] p.components = fold (if p.isAbsolute then [.root] else []) p.steps := by
  unfold components
  split
  · exact fold_filter_current _ _
  split
  · next hnone => rw [hnone]
  · next first rest hsteps =>
    rw [hsteps]
    exact fold_filter_current _ _

/-- **A path is folded to folded components.** -/
theorem isFolded_fold (p : Path) : IsFolded p.isAbsolute (fold [] p.components) := by
  have hstart : IsFolded p.isAbsolute (if p.isAbsolute then [.root] else []) := by
    cases p.isAbsolute
    · exact .ups 0
    · exact .root
  rw [fold_components]
  exact hstart.fold (root_notMem_steps p) fun s => isName_of_mem_steps

/-- The text of a component that a path can spell is not empty, and has no slash. -/
lemma text_of_ne_root (hroot : c ≠ .root) (hname : ∀ s, c = .name s → IsName s) :
    c.text ≠ [] ∧ '/' ∉ c.text := by
  refine ⟨fun hnone => ?_, ?_⟩
  · have htext := componentOf?_text hroot hname
    rw [hnone] at htext
    cases htext
  · cases c with
    | root => exact absurd rfl hroot
    | current => decide
    | parent => decide
    | name s => exact (hname s rfl).1

/-- The path of the root and names is that of a place. -/
lemma ofComponents_names (names : List String) :
    ofComponents (.root :: names.map .name) = Location.path names := by
  cases names with
  | nil => rfl
  | cons s names =>
    have htexts : (names.map Component.name).map Component.text = names.map String.toList := by
      rw [List.map_map]
      rfl
    rw [ofComponents, if_neg (by simp), Location.path, List.map_cons, List.map_cons, List.map_cons,
      htexts]
    rfl

/-- Components are what the path made of them is cut into. -/
lemma splitSlash_ofComponents (hne : cs ≠ []) (hroot : cs ≠ [.root])
    (hname : ∀ s, .name s ∈ cs → IsName s) :
    splitSlash (ofComponents cs).text.toList = cs.map Component.text := by
  rw [ofComponents, if_neg hroot, String.toList_ofList,
    splitSlash_joinSlash fun hnil => hne (List.map_eq_nil_iff.1 hnil)]
  intro piece hpiece
  obtain ⟨c, hc, rfl⟩ := List.mem_map.1 hpiece
  by_cases hc' : c = .root
  · subst hc'
    exact List.not_mem_nil
  · exact (text_of_ne_root hc' fun s hs => hname s (hs ▸ hc)).2

/-- An absolute path begins with an empty stretch. -/
lemma nil_mem_splitSlash_of_isAbsolute (h : p.isAbsolute = true) :
    [] ∈ splitSlash p.text.toList := by
  obtain ⟨rest, htext⟩ := List.head?_eq_some_iff.1 (beq_iff_eq.1 h)
  rw [htext, splitSlash, if_pos rfl]
  exact List.mem_cons_self ..

namespace IsFolded

/-- The path of folded components starts where they do. -/
lemma isAbsolute_ofComponents (h : IsFolded absolute folded) :
    (ofComponents folded.reverse).isAbsolute = absolute := by
  cases absolute with
  | true =>
    obtain ⟨_, names, hnames, -⟩ := h.exists_names
    rw [hnames, if_pos rfl, List.singleton_append, ofComponents_names]
    exact Location.isAbsolute_path names
  | false =>
    refine Bool.eq_false_iff.2 fun habsolute => ?_
    have hroot : folded.reverse ≠ [.root] := fun heq =>
      h.root_notMem (List.mem_reverse.1 (heq ▸ List.mem_singleton_self _))
    by_cases hnone : folded = []
    · subst hnone
      cases habsolute
    · have hempty := nil_mem_splitSlash_of_isAbsolute habsolute
      rw [splitSlash_ofComponents (fun hnil => hnone (List.reverse_eq_nil_iff.1 hnil)) hroot
        fun s hs => h.isName (List.mem_reverse.1 hs)] at hempty
      obtain ⟨c, hc, htext⟩ := List.mem_map.1 hempty
      have hc := List.mem_reverse.1 hc
      exact (text_of_ne_root (fun hc' => h.root_notMem (hc' ▸ hc)) fun s hs => h.isName (hs ▸ hc)).1
        htext

/-- **Folded components are those of the path that is made of them.** -/
theorem components_ofComponents (h : IsFolded absolute folded) :
    (ofComponents folded.reverse).components = folded.reverse := by
  cases absolute with
  | true =>
    obtain ⟨_, names, hnames, hall⟩ := h.exists_names
    rw [hnames, if_pos rfl, List.singleton_append, ofComponents_names]
    exact Location.components_path hall
  | false =>
    have hsteps : (ofComponents folded.reverse).steps = folded.reverse := by
      rw [steps_ofComponents fun s hs => h.isName (List.mem_reverse.1 hs), List.filter_eq_self]
      exact fun c hc => decide_eq_true fun hroot => h.root_notMem (hroot ▸ List.mem_reverse.1 hc)
    rw [components, h.isAbsolute_ofComponents, if_neg Bool.false_ne_true, hsteps]
    cases hcs : folded.reverse with
    | nil => rfl
    | cons first rest =>
      refine congrArg (first :: ·) (List.filter_eq_self.2 fun c hc => decide_eq_true ?_)
      have hmem : c ∈ folded.reverse := hcs ▸ List.mem_cons_of_mem _ hc
      exact fun hcurrent => h.current_notMem (hcurrent ▸ List.mem_reverse.1 hmem)

/-- **A path that is made of folded components stays as it is.** -/
theorem normalize_ofComponents (h : IsFolded absolute folded) :
    (ofComponents folded.reverse).normalize = ofComponents folded.reverse := by
  rw [normalize, h.components_ofComponents, h.fold_reverse]

end IsFolded

/-! ## Normalized paths -/

/-- Whether the path is made of folded components, of an absolute or of a relative path. -/
def IsNormal (absolute : Bool) (p : Path) : Prop :=
  ∃ folded, IsFolded absolute folded ∧ p = ofComponents folded.reverse

/-- Normalized paths are made of folded components. -/
lemma isNormal_normalize (p : Path) : p.normalize.IsNormal p.isAbsolute :=
  ⟨_, isFolded_fold p, rfl⟩

/-- A path that is made of folded components stays as it is. -/
lemma IsNormal.normalize_eq (h : p.IsNormal absolute) : p.normalize = p := by
  obtain ⟨folded, hfolded, rfl⟩ := h
  exact hfolded.normalize_ofComponents

/-- A path that is made of folded components starts where they do. -/
lemma IsNormal.isAbsolute_eq (h : p.IsNormal absolute) : p.isAbsolute = absolute := by
  obtain ⟨folded, hfolded, rfl⟩ := h
  exact hfolded.isAbsolute_ofComponents

/-- The components of a normalized path are what the path is folded to. -/
lemma components_normalize (p : Path) : p.normalize.components = (fold [] p.components).reverse :=
  (isFolded_fold p).components_ofComponents

/-- **A path that is seen from a directory** is folded behind the directory. -/
theorem normalize_join (h : q.isAbsolute = false) :
    (p.join q).normalize = ofComponents (fold (fold [] p.components) q.steps).reverse := by
  rw [normalize, fold_components, isAbsolute_join h, steps_join h, fold_append, ← fold_components]

/-- **A directory may be normalized** before a path is seen from it. -/
theorem normalize_join_normalize (d q : Path) :
    (d.normalize.join q).normalize = (d.join q).normalize := by
  cases h : q.isAbsolute with
  | true => rw [join, join, if_pos h, if_pos h]
  | false =>
    rw [normalize_join h, normalize_join h, components_normalize, (isFolded_fold d).fold_reverse]

/-! ## Longer paths -/

/-- The text of components ends with that of the last one. -/
lemma toList_ofComponents_concat (hlast : cs ++ [c] ≠ [.root]) :
    (ofComponents (cs ++ [c])).text.toList =
      (if cs = [] then [] else joinSlash (cs.map Component.text) ++ ['/']) ++ c.text := by
  rw [ofComponents, if_neg hlast, String.toList_ofList, List.map_append, List.map_singleton]
  split
  · next hnone =>
    subst hnone
    rfl
  · next hsome =>
    rw [joinSlash_append (fun hnil => hsome (List.map_eq_nil_iff.1 hnil)) (List.cons_ne_nil _ _),
      List.append_assoc]
    rfl

/-- Another component at the end than the root. -/
lemma concat_ne_root (cs : List Component) (hroot : c ≠ .root) : cs ++ [c] ≠ [.root] := by
  intro heq
  have hlast := congrArg List.getLast? heq
  rw [List.getLast?_concat] at hlast
  exact hroot (Option.some.inj hlast)

/-- A path whose last component is not the root says something, and has no slash at its end. -/
lemma text_ofComponents_concat (cs : List Component) (hroot : c ≠ .root)
    (hname : ∀ s, c = .name s → IsName s) :
    (ofComponents (cs ++ [c])).text ≠ "" ∧ (ofComponents (cs ++ [c])).endsInSlash = false := by
  have htext := toList_ofComponents_concat (concat_ne_root cs hroot)
  obtain ⟨hsome, hslash⟩ := text_of_ne_root hroot hname
  refine ⟨fun hnone => ?_, Bool.eq_false_iff.2 fun hend => ?_⟩
  · rw [hnone] at htext
    exact hsome (List.append_eq_nil_iff.1 htext.symm).2
  · rw [endsInSlash, htext, List.getLast?_append, List.getLast?_eq_some_getLast hsome,
      Option.some_or, beq_iff_eq] at hend
    exact hslash (Option.some.inj hend ▸ List.getLast_mem hsome)

/-- Paths of one text are one path. -/
lemma ext_toList (h : p.text.toList = q.text.toList) : p = q := by
  cases p
  cases q
  exact congrArg Path.mk (String.toList_inj.1 h)

/-- **A name behind a normalized path** gives a normalized path.

**Proof sketch.** By the last component: behind a name or a step up the separator is added, behind
the root and behind nothing it is not, which is how the text of a longer path is made. -/
theorem IsNormal.join_name (h : p.IsNormal absolute) (hs : IsName s) :
    (p.join ⟨s⟩).IsNormal absolute := by
  obtain ⟨folded, hfolded, rfl⟩ := h
  refine ⟨_, hfolded.name hs, ext_toList ?_⟩
  have hrelative : (Path.mk s).isAbsolute = false :=
    Bool.eq_false_iff.2 fun habsolute => hs.1 (List.mem_of_head? (beq_iff_eq.1 habsolute))
  have hname : Component.name s ≠ .root := fun heq => by cases heq
  rw [List.reverse_cons, toList_ofComponents_concat (concat_ne_root _ hname), join,
    if_neg (by simp [hrelative])]
  obtain rfl | rfl | ⟨last, rest, rfl, hrest, hroot⟩ := hfolded.exists_last
  · simp [ofComponents, joinSlash, Component.text]
  · simp [ofComponents, endsInSlash, joinSlash, Component.text]
  · rw [List.reverse_cons]
    obtain ⟨hsome, hslash⟩ := text_ofComponents_concat rest.reverse hroot fun s hs =>
      hfolded.isName (hs ▸ List.mem_cons_self ..)
    rw [if_neg (by simp [hsome, hslash]), if_neg (by simp), ofComponents,
      if_neg (concat_ne_root _ hroot)]
    simp [Component.text]

/-- **A suffix behind a normalized path** gives a normalized path, if it is so long that the last
component is a name then. -/
theorem IsNormal.withSuffix (h : p.IsNormal absolute) {suffix : String}
    (hslash : '/' ∉ suffix.toList) (hlong : 2 < suffix.toList.length) :
    (p.withSuffix suffix).IsNormal absolute := by
  have hname {text : List Char} (htext : '/' ∉ text) :
      IsName (String.ofList (text ++ suffix.toList)) := by
    rw [IsName, String.toList_ofList]
    refine ⟨List.not_mem_append htext hslash, componentOf?_of_length ?_⟩
    rw [List.length_append]
    exact Nat.lt_add_left _ hlong
  obtain ⟨folded, hfolded, rfl⟩ := h
  obtain rfl | rfl | ⟨last, rest, rfl, hrest, hroot⟩ := hfolded.exists_last
  · refine ⟨_, hfolded.name (hname List.not_mem_nil), ext_toList ?_⟩
    simp [Path.withSuffix, ofComponents, joinSlash, Component.text]
  · refine ⟨_, hfolded.name (hname List.not_mem_nil), ext_toList ?_⟩
    simp [Path.withSuffix, ofComponents, joinSlash, Component.text]
  · have hlast := text_of_ne_root hroot fun s hs => hfolded.isName (hs ▸ List.mem_cons_self ..)
    refine ⟨_, hrest.name (hname hlast.2), ext_toList ?_⟩
    have hne : Component.name (String.ofList (last.text ++ suffix.toList)) ≠ .root :=
      fun heq => by cases heq
    rw [Path.withSuffix, String.toList_append, List.reverse_cons, List.reverse_cons,
      toList_ofComponents_concat (concat_ne_root _ hroot),
      toList_ofComponents_concat (concat_ne_root _ hne),
      Component.text, String.toList_ofList, List.append_assoc]

end Path

/-! ## Modules -/

open CardTable.Path (IsNormal)

/-- **The place that a path names** has the path from the root, normalized.

**Proof sketch.** Both sides fold the same components, those of the working directory and then those
of the path, or those of an absolute path alone. The result begins with the root and goes on with
names only, so that the place is the list of these names. -/
theorem Path.path_location {wd : Location} (h : wd.IsSpelled) (p : Path) :
    (p.location wd).path = (wd.path.join p).normalize := by
  have hstart : (wd.path.join p).isAbsolute = true ∧
      (wd.path.join p).steps = if p.isAbsolute then p.steps else wd.map .name ++ p.steps := by
    cases hp : p.isAbsolute with
    | true =>
      rw [join, if_pos hp, if_pos rfl]
      exact ⟨hp, rfl⟩
    | false =>
      rw [isAbsolute_join hp, steps_join hp, Location.steps_path h]
      exact ⟨Location.isAbsolute_path wd, rfl⟩
  have hfolded := isFolded_fold (wd.path.join p)
  rw [hstart.1] at hfolded
  obtain ⟨_, names, hnames, -⟩ := hfolded.exists_names
  have hplace : p.location wd = names := by
    rw [fold_components, hstart.1, hstart.2, if_pos rfl, if_pos rfl] at hnames
    rw [location, hnames, List.singleton_append, List.filterMap_cons_none rfl, List.filterMap_map]
    exact List.filterMap_some
  rw [normalize, hnames, if_pos rfl, List.singleton_append, ofComponents_names, hplace]

/-- The files that a specifier may stand for have normalized paths. -/
lemma isNormal_of_mem_candidates {importer p : Path} {specifier : String}
    (h : p ∈ candidates importer specifier) :
    p.IsNormal ((importer.parent?.getD ⟨""⟩).join ⟨specifier⟩).isAbsolute := by
  have hbase := Path.isNormal_normalize ((importer.parent?.getD ⟨""⟩).join ⟨specifier⟩)
  unfold candidates at h
  dsimp only at h
  simp only [List.mem_cons, List.not_mem_nil, or_false] at h
  rcases h with rfl | rfl | rfl
  · exact hbase.withSuffix (by decide) (by decide)
  · exact hbase
  · exact hbase.join_name ⟨by decide, by decide⟩

/-- What is seen from the directory of an absolute path is absolute. -/
lemma Path.isAbsolute_join_of_parent? {p d : Path} (h : p.parent? = some d)
    (habsolute : p.isAbsolute = true) (q : Path) : (d.join q).isAbsolute = true := by
  have hd : d.isAbsolute = true := by
    by_cases hbare : d.text = ""
    · cases habsolute.symm.trans (splitSlash_of_parent?_bare h hbare).1
    · exact (exists_steps_of_parent? h hbare).1.trans habsolute
  cases hq : q.isAbsolute with
  | true => rwa [join, if_pos hq]
  | false => rwa [isAbsolute_join hq]

/-- The file that a specifier stands for has a normalized path. -/
lemma isNormal_of_resolve {t : FileTree} {importer q : Path} {specifier : String}
    (h : resolve t importer specifier = .resolved q) :
    q.IsNormal ((importer.parent?.getD ⟨""⟩).join ⟨specifier⟩).isAbsolute := by
  unfold resolve at h
  split at h
  · cases h
  split at h
  · next file hfile =>
    cases h
    exact isNormal_of_mem_candidates (List.mem_of_find?_eq_some hfile)
  · cases h

/-- **Normalized paths are keys.** They have no `.`, and `..` only in front of a relative path, and
stay as they are. A directory may be normalized before a path is seen from it. The files that
specifiers stand for have normalized paths, which are those of their places if the importing module
has an absolute path. And paths name one place when they are one path from the root, normalized.

**Proof sketch.** The components of a path fold to a root or to steps up, with names behind
(`isFolded_fold`), and such components are folded to themselves (`IsFolded.fold_reverse`), so that a
normalized path stays as it is. A directory may be normalized first because folding goes on from
where it stopped. The files of a specifier are normalized paths with a suffix or with one more name,
which keep the form (`IsNormal.withSuffix`, `IsNormal.join_name`). Places are told apart by their
paths (`Location.path_injective`). -/
theorem Path.normalize_isCanonical :
    (∀ p : Path, .current ∉ p.normalize.steps ∧
      (∃ ups, ∃ names : List String, p.normalize.components =
        (if p.isAbsolute then [.root] else List.replicate ups .parent) ++ names.map .name) ∧
      p.normalize.normalize = p.normalize) ∧
    (∀ d s : Path, (d.normalize.join s).normalize = (d.join s).normalize) ∧
    (∀ (t : FileTree) (importer q : Path) (specifier : String),
      resolve t importer specifier = .resolved q → q.normalize = q ∧
        (importer.isAbsolute = true → importer.parent?.isSome = true →
          ∀ wd, (q.location wd).path = q)) ∧
    (∀ wd : Location, wd.IsSpelled → ∀ p q : Path, p.location wd = q.location wd ↔
      (wd.path.join p).normalize = (wd.path.join q).normalize) := by
  refine ⟨fun p => ⟨?_, ?_, (isNormal_normalize p).normalize_eq⟩, normalize_join_normalize,
    fun t importer q specifier h => ⟨(isNormal_of_resolve h).normalize_eq, ?_⟩, fun wd hwd p q => ?_⟩
  · have hfolded := isFolded_fold p
    rw [normalize, steps_ofComponents fun s hs => hfolded.isName (List.mem_reverse.1 hs)]
    exact fun hmem => hfolded.current_notMem (List.mem_reverse.1 (List.mem_filter.1 hmem).1)
  · obtain ⟨ups, names, hnames, -⟩ := (isFolded_fold p).exists_names
    exact ⟨ups, names, (components_normalize p).trans hnames⟩
  · intro himporter hparent wd
    obtain ⟨d, hd⟩ := Option.isSome_iff_exists.1 hparent
    have hq := isNormal_of_resolve h
    rw [hd, Option.getD_some, isAbsolute_join_of_parent? hd himporter] at hq
    have hplace : q.location wd = q.location [] := by
      rw [location, location, if_pos hq.isAbsolute_eq, if_pos hq.isAbsolute_eq]
    have hbare : Location.IsSpelled [] := fun s hs => absurd hs List.not_mem_nil
    rw [hplace, path_location hbare, join, if_pos hq.isAbsolute_eq, hq.normalize_eq]
  · rw [← path_location hwd, ← path_location hwd]
    exact ⟨congrArg _, Location.path_injective (Location.isSpelled_location hwd p)
      (Location.isSpelled_location hwd q)⟩

/-- A directory with two modules, the second of which is imported through a detour. -/
theorem Path.normalize_detour :
    let t : FileTree :=
      { entries := [(["cards"], .directory), (["cards", "b.ts"], .file (.bytes .empty))]
        workingDirectory := [] }
    let q : Path := ⟨"/cards/b.ts"⟩
    resolve t ⟨"/cards/a.ts"⟩ "./x/../b" = .resolved q ∧ q.normalize = q ∧
      (q.location ["cards"]).path = q ∧
      ((Path.mk "./b.ts").location ["cards"] = (Path.mk "x/../b.ts").location ["cards"]) := by
  intro t q
  have hresolve : resolve t ⟨"/cards/a.ts"⟩ "./x/../b" = .resolved q := by decide +kernel
  obtain ⟨-, -, hfile, hplaces⟩ := Path.normalize_isCanonical
  obtain ⟨hq, hplace⟩ := hfile t _ q _ hresolve
  have hspelled : Location.IsSpelled ["cards"] :=
    fun s hs => List.mem_singleton.1 hs ▸ ⟨by decide, by decide⟩
  exact ⟨hresolve, hq, hplace (by decide) (by decide +kernel) _,
    (hplaces _ hspelled _ _).2 (by decide +kernel)⟩

end CardTable
