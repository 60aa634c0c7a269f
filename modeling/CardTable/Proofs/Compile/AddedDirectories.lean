import CardTable.Compile.Basic
import CardTable.Proofs.Corpus.CardFiles
import CardTable.Proofs.Files.DirectPaths
import CardTable.Proofs.Compile.ListingOrder
import CardTable.Proofs.Compile.RootedTrees
import Mathlib.Data.List.Find
import Mathlib.Data.List.Perm.Basic

set_option autoImplicit false

/-!
# Corpora among more directories

Directories without files are no part of a corpus. What can be read can be read just so if there are
more directories: the same card files are listed, specifiers stand for the same files, and the same
modules are loaded. A reading that fails may succeed among more directories, since a path can lead
through one of them.

## Main results

* `CardTable.FileTree.MoreDirectories.flatCards_eq_ok` — flat corpora hold the same cards.
* `CardTable.FileTree.MoreDirectories.filesBelow_perm` — the same files are below a place.
* `CardTable.FileTree.MoreDirectories.resolve_eq` — specifiers stand for the same files.
* `CardTable.FileTree.MoreDirectories.loadAt_eq_ok` — modules are loaded in the same way.
* `CardTable.FileTree.MoreDirectories.collect_eq_ok` — corpora of modules hold the same cards.
-/

namespace CardTable

/-! ## Successes -/

section Successes

variable {ε ε' α β : Type} {x y : Except ε α}

/-- A bind succeeds if its steps do, as those of another bind. -/
lemma bind_eq_ok_of_imp {f g : α → Except ε β} {b : β} (hx : ∀ a, x = .ok a → y = .ok a)
    (hf : ∀ a, f a = .ok b → g a = .ok b) (h : (x >>= f) = .ok b) : (y >>= g) = .ok b := by
  cases x with
  | error e => cases h
  | ok a =>
    rw [hx a rfl]
    exact hf a h

/-- Another wording of the errors does not matter to a success. -/
lemma mapError_eq_ok_iff {f : ε → ε'} {a : α} : x.mapError f = .ok a ↔ x = .ok a := by
  cases x <;> simp [Except.mapError]

end Successes

namespace FileTree.MoreDirectories

/-! ## Reading -/

section Reading

variable {t u : FileTree} (h : t.MoreDirectories u)
include h

/-- Steps that can be walked can be walked. -/
lemma descend_eq_ok {here place : Location} {steps : List Path.Component}
    (hsteps : t.descend here steps = .ok place) : u.descend here steps = .ok place :=
  descend_eq_ok_of_directories (fun loc => h.kept loc .directory) hsteps

/-- Paths that lead somewhere lead there. -/
lemma locate_eq_ok {p : Path} {place : Location} (hp : t.locate p = .ok place) :
    u.locate p = .ok place :=
  locate_eq_ok_of_directories (fun loc => h.kept loc .directory) h.workingDirectory hp

/-- What is found is found. -/
lemma find_eq_ok {p : Path} {entry : Entry} (hfound : t.find p = .ok entry) :
    u.find p = .ok entry := by
  unfold find at hfound ⊢
  refine bind_eq_ok_of_imp (fun _ => h.locate_eq_ok) (fun place hplace => ?_) hfound
  cases hentry : t.at? place with
  | none => simp [hentry] at hplace
  | some found =>
    rw [h.kept place found hentry]
    rw [hentry] at hplace
    exact hplace

/-- Files that hold a text hold it. -/
lemma readText_eq_ok {p : Path} {s : String} (hread : t.readText p = .ok s) :
    u.readText p = .ok s :=
  bind_eq_ok_of_imp (fun _ => h.find_eq_ok) (fun _ htext => htext) hread

/-- Files that hold a text are read. -/
lemma mapError_readText_eq_ok {ε : Type} {p : Path} {wording : IoError → ε} {s : String}
    (hread : (t.readText p).mapError wording = .ok s) : (u.readText p).mapError wording = .ok s :=
  mapError_eq_ok_iff.2 (h.readText_eq_ok (mapError_eq_ok_iff.1 hread))

/-- Paths that lead to a file lead to it. -/
lemma isFile_eq_true {p : Path} (hfile : t.isFile p = true) : u.isFile p = true := by
  unfold isFile at hfile ⊢
  split at hfile
  · next content hfound => rw [h.find_eq_ok hfound]
  · cases hfile

/-- Paths that lead to a directory lead to it. -/
lemma isDirectory_eq_true {p : Path} (hdirectory : t.isDirectory p = true) :
    u.isDirectory p = true := by
  unfold isDirectory at hdirectory ⊢
  split at hdirectory
  · next hfound => rw [h.find_eq_ok hfound]
  · cases hdirectory

/-- A catalog that can be read says the same. -/
lemma catalog_eq_ok {file : Path} {catalog : Catalog}
    (hread : Catalog.read t file = .ok catalog) :
    Catalog.read u file = .ok catalog := by
  unfold Catalog.read at hread ⊢
  split at hread
  · next hfile =>
    rw [if_pos (h.isFile_eq_true hfile)]
    exact bind_eq_ok_of_imp (fun _ => h.mapError_readText_eq_ok) (fun _ htext => htext) hread
  · cases hread

/-- A card file that can be read holds the same cards. -/
lemma readCards_eq_ok {file : Path} {cards : List Card}
    (hread : Flat.readCards t file = .ok cards) :
    Flat.readCards u file = .ok cards :=
  bind_eq_ok_of_imp (fun _ => h.mapError_readText_eq_ok) (fun _ htext => htext) hread

/-- Card files that can be read hold the same cards. -/
lemma loadFiles_eq_ok {catalog : Catalog} {files : List Path} {cards : List CorpusCard}
    (hload : Flat.loadFiles t catalog files = .ok cards) :
    Flat.loadFiles u catalog files = .ok cards := by
  induction files generalizing cards with
  | nil => exact hload
  | cons file rest ih =>
    unfold Flat.loadFiles at hload ⊢
    refine bind_eq_ok_of_imp (fun _ => h.readCards_eq_ok) (fun first hfirst => ?_) hload
    exact bind_eq_ok_of_imp (fun _ => ih) (fun _ hmore => hmore) hfirst

end Reading

/-! ## Listing -/

section Listing

variable {t u : FileTree} (h : t.MoreDirectories u) (ht : t.IsRooted) (hu : ([] :: u.places).Nodup)
include h ht hu

/-- A directory lists the same, and directories at places where nothing was. -/
lemma exists_childrenAt_perm (loc : Location) : ∃ added : List (String × Entry),
    (u.childrenAt loc).Perm (t.childrenAt loc ++ added) ∧
      ∀ child ∈ added, child.2 = .directory ∧ t.at? (loc ++ [child.1]) = none := by
  have hdistinct := (List.nodup_cons.1 ht.distinct).2
  have hdistinct' := (List.nodup_cons.1 hu).2
  have hnodup : ∀ {v : FileTree}, v.places.Nodup → (v.childrenAt loc).Nodup := fun hv =>
    (pairwise_childrenAt hv loc).imp fun hne heq => hne (congrArg Prod.fst heq)
  have hold : ((u.childrenAt loc).filter fun child => (t.at? (loc ++ [child.1])).isSome).Perm
      (t.childrenAt loc) := by
    refine (List.perm_ext_iff_of_nodup ((hnodup hdistinct').filter _) (hnodup hdistinct)).2 ?_
    rintro ⟨s, entry⟩
    rw [List.mem_filter, mem_childrenAt_iff hdistinct', mem_childrenAt_iff hdistinct]
    constructor
    · rintro ⟨hentry, hold⟩
      obtain ⟨found, hfound⟩ := Option.isSome_iff_exists.1 hold
      rw [← hentry, h.kept _ _ hfound, hfound]
    · exact fun hentry => ⟨h.kept _ _ hentry, Option.isSome_iff_exists.2 ⟨entry, hentry⟩⟩
  refine ⟨_, (List.filter_append_perm _ _).symm.trans (hold.append_right _), ?_⟩
  rintro ⟨s, entry⟩ hchild
  obtain ⟨hchild, hnew⟩ := List.mem_filter.1 hchild
  have hentry := (mem_childrenAt_iff hdistinct').1 hchild
  have hnone : t.at? (loc ++ [s]) = none := by simpa using hnew
  refine ⟨?_, hnone⟩
  cases entry with
  | directory => rfl
  | file content => cases hnone.symm.trans (h.old _ _ hentry)

open Collection (filesBelow)

/-- There are no files below a place that was no directory. -/
lemma filesBelow_eq_nil (depth : Nat) (p : Path) {loc : Location}
    (hnone : t.at? loc ≠ some .directory) : filesBelow u depth p loc = [] := by
  have hdistinct' := (List.nodup_cons.1 hu).2
  -- what was one step below such a place would have been in a directory
  have hempty : ∀ s, t.at? (loc ++ [s]) = none := fun s =>
    Option.eq_none_iff_forall_ne_some.2 fun entry hentry =>
      hnone (by simpa using ht.inDirectory _ _ hentry)
  induction depth using Nat.strongRecOn generalizing p loc with
  | ind depth ih =>
    match depth with
    | 0 => rfl
    | 1 =>
      rw [filesBelow, List.filterMap_eq_nil_iff]
      rintro ⟨s, entry⟩ hchild
      cases entry with
      | directory => rfl
      | file content =>
        have hentry := h.old _ _ ((mem_childrenAt_iff hdistinct').1 hchild)
        cases (hempty s).symm.trans hentry
    | depth + 2 =>
      rw [filesBelow, List.flatMap_eq_nil_iff]
      rintro ⟨s, entry⟩ -
      cases entry with
      | file content => rfl
      | directory =>
        have hnone' : t.at? (loc ++ [s]) ≠ some .directory := by simp [hempty s]
        refine ih (depth + 1) (Nat.lt_succ_self _) _ hnone' fun s' => ?_
        exact Option.eq_none_iff_forall_ne_some.2 fun entry hentry =>
          hnone' (by simpa using ht.inDirectory _ _ hentry)

/-- **The same files are below a place.**

**Proof sketch.** Induction on the depth. What is listed in the larger tree are the entries of the
smaller one, in some order, and directories behind them that have nothing in them. These add no
files, and the induction hypothesis applies to the directories in both. -/
theorem filesBelow_perm (depth : Nat) (p : Path) (loc : Location) :
    (filesBelow u depth p loc).Perm (filesBelow t depth p loc) := by
  induction depth using Nat.strongRecOn generalizing p loc with
  | ind depth ih =>
    obtain ⟨added, hperm, hadded⟩ := h.exists_childrenAt_perm ht hu loc
    match depth with
    | 0 => exact List.Perm.refl _
    | 1 =>
      refine (hperm.filterMap _).trans ?_
      rw [List.filterMap_append]
      refine ((List.Perm.of_eq (List.filterMap_eq_nil_iff.2 ?_)).append_left _).trans ?_
      · rintro ⟨s, entry⟩ hchild
        obtain ⟨rfl, -⟩ := hadded _ hchild
        rfl
      · rw [List.append_nil]
        exact List.Perm.refl _
    | depth + 2 =>
      refine (hperm.flatMap_right _).trans ?_
      rw [List.flatMap_append]
      refine ((List.Perm.of_eq (List.flatMap_eq_nil_iff.2 ?_)).append_left _).trans ?_
      · rintro ⟨s, entry⟩ hchild
        obtain ⟨rfl, hempty⟩ := hadded _ hchild
        exact h.filesBelow_eq_nil ht hu _ _ (by simp [hempty])
      rw [List.append_nil]
      refine List.Perm.flatMap_left _ fun child _ => ?_
      obtain ⟨s, entry⟩ := child
      cases entry with
      | file content => exact List.Perm.refl _
      | directory => exact ih (depth + 1) (Nat.lt_succ_self _) _ _

/-- Flat corpora have the same card files. -/
lemma flat_cardFiles_eq_ok {directory : Path} {files : List Path}
    (hfiles : Flat.cardFiles t directory = .ok files) : Flat.cardFiles u directory = .ok files := by
  unfold Flat.cardFiles at hfiles ⊢
  split at hfiles
  · next hdirectory =>
    obtain ⟨place, hplace, -⟩ := isDirectory_iff.1 hdirectory
    rw [if_pos (h.isDirectory_eq_true hdirectory), ← hfiles, children, children, hplace,
      h.locate_eq_ok hplace]
    have hbelow := h.filesBelow_perm ht hu 1 directory place
    exact congrArg Except.ok (Path.mergeSort_notAfter_eq (hbelow.filter _))
  · cases hfiles

/-- Corpora of modules have the same card files. -/
lemma collection_cardFiles_eq_ok {root : Path} {files : List Path}
    (hfiles : Collection.cardFiles t root = .ok files) :
    Collection.cardFiles u root = .ok files := by
  unfold Collection.cardFiles at hfiles ⊢
  split at hfiles
  · next place hdirectory hplace =>
    rw [h.isDirectory_eq_true hdirectory, h.locate_eq_ok hplace, ← hfiles]
    have hbelow := h.filesBelow_perm ht hu Collection.cardDepth root place
    exact congrArg Except.ok (Path.mergeSort_notAfter_eq (hbelow.filter _))
  · cases hfiles

/-- **Flat corpora hold the same cards.** -/
theorem flatCards_eq_ok {config : FlatConfig} {result : List CorpusCard × List String}
    (hcards : Compile.flatCards t config = .ok result) :
    Compile.flatCards u config = .ok result := by
  have hfiles : ∀ files, Flat.cardFiles t config.cardsDir = .ok files →
      Flat.cardFiles u config.cardsDir = .ok files := fun _ => h.flat_cardFiles_eq_ok ht hu
  have hload : ∀ catalog cards, Flat.load t catalog config.cardsDir = .ok cards →
      Flat.load u catalog config.cardsDir = .ok cards := by
    refine fun catalog cards => bind_eq_ok_of_imp hfiles fun files hcards => ?_
    split at hcards
    · cases hcards
    · next hne =>
      rw [if_neg hne]
      exact h.loadFiles_eq_ok hcards
  refine bind_eq_ok_of_imp (fun _ => h.catalog_eq_ok) (fun catalog hcatalog => ?_) hcards
  refine bind_eq_ok_of_imp (hload catalog) (fun cards hcards => ?_) hcatalog
  exact bind_eq_ok_of_imp hfiles (fun _ hresult => hresult) hcards

end Listing

/-! ## Loading -/

section Loading

open ModuleGraph (loadAt loadImports sourceAt waiting)

variable {t u : FileTree} (h : t.MoreDirectories u)
include h

/-- A module that can be taken apart is the same. -/
lemma sourceAt_eq_ok {loc : Location} {source : Source.Module}
    (hsource : sourceAt t loc = .ok source) : sourceAt u loc = .ok source := by
  have hread : ∀ text, t.readTextAt loc = .ok text → u.readTextAt loc = .ok text := by
    refine fun text => bind_eq_ok_of_imp (fun entry => ?_) (fun _ htext => htext)
    refine bind_eq_ok_of_imp (fun _ => h.descend_eq_ok) (fun place hplace => ?_)
    cases hentry : t.at? place with
    | none => simp [hentry] at hplace
    | some found =>
      rw [h.kept place found hentry]
      rw [hentry] at hplace
      exact hplace
  unfold sourceAt at hsource ⊢
  split at hsource
  · cases hsource
  · next text htext =>
    rw [hread text htext]
    exact hsource

variable (ht : t.IsRooted)
include ht

/-- Steps that go up first and then down lead to a file only where they did. -/
lemma descend_of_isDirect {here place : Location} {steps : List Path.Component}
    (hsteps : Path.IsDirect steps) (hhere : t.at? here = some .directory)
    (hplace : u.descend here steps = .ok place) {content : Content}
    (hfile : t.at? place = some (.file content)) : t.descend here steps = .ok place := by
  induction steps generalizing here with
  | nil => exact hplace
  | cons step rest ih =>
    cases step with
    | name s =>
      -- from here on there are only names, which lead to the file
      obtain ⟨names, rfl⟩ := hsteps.exists_names
      rw [← List.map_cons] at hplace ⊢
      obtain rfl := eq_append_of_descend hplace
      exact ht.descend_names hfile
    | _ =>
      have hrest := (List.pairwise_cons.1 hsteps).2
      unfold descend at hplace ⊢
      rw [h.kept here _ hhere] at hplace
      rw [hhere]
      refine ih hrest ?_ hplace
      first | rfl | exact hhere | exact ht.inDirectory _ _ hhere

/-- Paths that go up first and then down lead to the same files. -/
lemma isFile_eq_of_isDirect {p : Path} (hp : Path.IsDirect p.steps) :
    u.isFile p = t.isFile p := by
  refine Bool.eq_iff_iff.2 ⟨fun hfile => ?_, h.isFile_eq_true⟩
  obtain ⟨place, content, hplace, hcontent, hslash⟩ := isFile_iff.1 hfile
  have hold := h.old _ _ hcontent
  refine isFile_iff.2 ⟨place, content, ?_, hold, hslash⟩
  unfold locate at hplace ⊢
  split at hplace
  · cases hplace
  · next hnamed =>
    rw [startOf, h.workingDirectory, ← startOf] at hplace
    rw [if_neg hnamed]
    exact h.descend_of_isDirect ht hp (ht.at?_startOf p) hplace hold

/-- **Specifiers stand for the same files.** -/
theorem resolve_eq (importer : Path) (specifier : String) :
    resolve u importer specifier = resolve t importer specifier := by
  have hfind : (candidates importer specifier).find? u.isFile =
      (candidates importer specifier).find? t.isFile :=
    List.find?_congr fun p hp => h.isFile_eq_of_isDirect ht (isDirect_of_mem_candidates hp)
  rw [resolve, resolve, hfind]

/-- Imports are loaded in the same way if modules are. -/
lemma loadImports_eq_ok {loading : List Location}
    (hload : ∀ {g g' : ModuleGraph} {loc : Location} {id : Nat},
      loadAt t loading g loc = (g', .ok id) → loadAt u loading g loc = (g', .ok id))
    {g g' : ModuleGraph} {importer : Location} {imports : List Source.Import}
    {bindings : List Binding}
    (himports : loadImports t loading g importer imports = (g', .ok bindings)) :
    loadImports u loading g importer imports = (g', .ok bindings) := by
  induction imports generalizing g g' bindings with
  | nil =>
    rw [loadImports] at himports ⊢
    exact himports
  | cons i rest ih =>
    rw [loadImports] at himports ⊢
    rw [h.resolve_eq ht, h.workingDirectory]
    split at himports
    · split at himports
      · cases congrArg Prod.snd himports
      next hfirst =>
      rw [hload hfirst]
      dsimp only
      split at himports
      · cases congrArg Prod.snd himports
      next hrest =>
      rw [ih hrest]
      exact himports
    · exact ih himports

/-- **Modules are loaded in the same way** if they can be loaded.

**Proof sketch.** Induction on the number of places that are not being loaded, along the load in the
smaller tree. A load that succeeds reads only files that are there, and these are the same;
directories that were added would show only where a file is missing. -/
theorem loadAt_eq_ok {loading : List Location} {g g' : ModuleGraph} {loc : Location} {id : Nat}
    (hload : loadAt t loading g loc = (g', .ok id)) : loadAt u loading g loc = (g', .ok id) := by
  -- each module that is being loaded leaves fewer places
  induction hn : (waiting t loading).length using Nat.strongRecOn
    generalizing loading g g' loc id with
  | ind n ih =>
    rw [ModuleGraph.loadAt_eq] at hload ⊢
    split at hload
    · exact hload
    · split at hload
      · cases congrArg Prod.snd hload
      next hfresh =>
      rw [if_neg hfresh]
      cases hsource : sourceAt t loc with
      | error e =>
        rw [hsource] at hload
        cases congrArg Prod.snd hload
      | ok source =>
        have hfewer := ModuleGraph.waiting_lt (ModuleGraph.mem_places_of_sourceAt hsource) hfresh
        rw [hsource] at hload
        rw [h.sourceAt_eq_ok hsource]
        dsimp only at hload ⊢
        split at hload
        · cases congrArg Prod.snd hload
        next himports =>
        rw [h.loadImports_eq_ok ht (fun hdep => ih _ (hn ▸ hfewer) hdep rfl) himports]
        exact hload

/-- Modules at paths are loaded in the same way if they can be loaded. -/
lemma loadAll_eq_ok {g g' : ModuleGraph} {paths : List Path} {ids : List Nat}
    (hload : Evaluator.loadAll t g paths = (g', .ok ids)) :
    Evaluator.loadAll u g paths = (g', .ok ids) := by
  induction paths generalizing g g' ids with
  | nil => exact hload
  | cons p rest ih =>
    unfold Evaluator.loadAll ModuleGraph.load at hload ⊢
    rw [h.workingDirectory]
    split at hload
    · cases congrArg Prod.snd hload
    next hfirst =>
    rw [h.loadAt_eq_ok ht hfirst]
    dsimp only
    split at hload
    · cases congrArg Prod.snd hload
    next hrest =>
    rw [ih hrest]
    exact hload

/-- **Evaluators that give values give the same.** -/
theorem evaluateAll_eq_ok {runtime : Runtime} {e : Evaluator} {paths : List Path}
    {values : List Value}
    (hvalues : (Evaluator.evaluateAll t runtime e paths).answer = .ok values) :
    (Evaluator.evaluateAll u runtime e paths).answer = .ok values := by
  unfold Evaluator.evaluateAll at hvalues ⊢
  cases hload : Evaluator.loadAll t e.graph paths with
  | mk g outcome =>
    cases outcome with
    | error error =>
      rw [hload] at hvalues
      cases hvalues
    | ok ids =>
      rw [hload] at hvalues
      rw [h.loadAll_eq_ok ht hload]
      exact hvalues

/-- **Corpora of modules hold the same cards.** -/
theorem collect_eq_ok (hu : ([] :: u.places).Nodup) {runtime : Runtime} {root : Path}
    {collection : Collection} (hcollect : Collection.collect t runtime root = .ok collection) :
    Collection.collect u runtime root = .ok collection := by
  refine bind_eq_ok_of_imp (fun _ => h.collection_cardFiles_eq_ok ht hu) (fun files hfiles => ?_)
    hcollect
  split at hfiles
  · cases hfiles
  next hne =>
  rw [if_neg hne]
  refine bind_eq_ok_of_imp (fun values hvalues => ?_) (fun _ hresult => hresult) hfiles
  exact mapError_eq_ok_iff.2 (h.evaluateAll_eq_ok ht (mapError_eq_ok_iff.1 hvalues))

end Loading

end FileTree.MoreDirectories

end CardTable
