import CardTable.Proofs.Files.Trees
import Mathlib.Tactic.Lemma

set_option autoImplicit false

/-!
# Trees listed in another order

The places of a file tree have no order of their own: a directory may list its entries in any order.
Two trees with the same entries in different orders cannot be told apart by walking and reading, and
what changes the one changes the other in the same way.

## Main definitions

* `CardTable.FileTree.Relists` — a tree with its places in another order.
* `CardTable.FileTree.SameOutcome`, `CardTable.FileTree.SameEnd` — outcomes of operations on two
  trees that differ in this order only.

## Main results

* `CardTable.FileTree.Relists.at?_eq` — the same is at each place.
* `CardTable.FileTree.Relists.locate_eq`, `CardTable.FileTree.Relists.find_eq` — paths lead to the
  same places.
* `CardTable.FileTree.Relists.childrenAt_perm` — directories list the same entries.
* `CardTable.FileTree.Relists.createDirectories`, `CardTable.FileTree.Relists.writeFile`,
  `CardTable.FileTree.Relists.removeFile`, `CardTable.FileTree.Relists.rename` — operations do the
  same.
-/

namespace CardTable

namespace FileTree

/-! ## Entries under distinct places -/

/-- Under distinct places a lookup finds exactly the entries that are there. -/
lemma lookup_eq_some_iff_mem {entries : List (Location × Entry)}
    (hdistinct : (entries.map Prod.fst).Nodup) {loc : Location} {entry : Entry} :
    entries.lookup loc = some entry ↔ (loc, entry) ∈ entries := by
  rw [List.lookup_eq_some_iff]
  constructor
  · rintro ⟨before, behind, rfl, -⟩
    exact List.mem_append_right _ (List.mem_cons_self ..)
  · intro hmem
    obtain ⟨before, behind, rfl⟩ := List.append_of_mem hmem
    refine ⟨before, behind, rfl, fun e he => ?_⟩
    rw [List.map_append, List.map_cons, List.nodup_append] at hdistinct
    rw [bne_iff_ne]
    exact (hdistinct.2.2 _ (List.mem_map_of_mem he) _ (List.mem_cons_self ..)).symm

/-- The tree `u` is `t` with its places in another order. -/
structure Relists (t u : FileTree) : Prop where
  /-- The entries are the same ones. -/
  entries : u.entries.Perm t.entries
  /-- Relative paths start at the same place. -/
  workingDirectory : u.workingDirectory = t.workingDirectory
  /-- No place is listed twice. -/
  distinct : t.places.Nodup

namespace Relists

variable {t u : FileTree} (h : t.Relists u)
include h

/-! ## Reading -/

/-- The other listing has no place twice either. -/
lemma distinct_places : u.places.Nodup :=
  (h.entries.map Prod.fst).nodup_iff.2 h.distinct

/-- **The same is at each place.** -/
theorem at?_eq (loc : Location) : u.at? loc = t.at? loc := by
  unfold at?
  split
  · rfl
  · refine Option.ext fun entry => ?_
    rw [lookup_eq_some_iff_mem h.distinct, lookup_eq_some_iff_mem h.distinct_places,
      h.entries.mem_iff]

/-- Steps lead to the same place. -/
lemma descend_eq (here : Location) (steps : List Path.Component) :
    u.descend here steps = t.descend here steps := by
  induction steps generalizing here with
  | nil => rfl
  | cons step steps ih => simp only [descend, h.at?_eq, ih]

/-- **A path leads to the same place.** -/
theorem locate_eq (p : Path) : u.locate p = t.locate p := by
  rw [locate, locate, startOf, startOf, h.workingDirectory, h.descend_eq]

/-- The same is found at a path. -/
theorem find_eq (p : Path) : u.find p = t.find p := by
  simp only [find, h.locate_eq, h.at?_eq]

/-- The same paths lead to files. -/
lemma isFile_eq : u.isFile = t.isFile := by
  funext p
  rw [isFile, isFile, h.find_eq]

/-- The same paths lead to directories. -/
lemma isDirectory_eq (p : Path) : u.isDirectory p = t.isDirectory p := by
  rw [isDirectory, isDirectory, h.find_eq]

/-- Files at paths hold the same texts. -/
lemma readText_eq (p : Path) : u.readText p = t.readText p := by
  rw [readText, readText, h.find_eq]

/-- Files at places hold the same texts. -/
lemma readTextAt_eq (loc : Location) : u.readTextAt loc = t.readTextAt loc := by
  simp only [readTextAt, entryAt, h.descend_eq, h.at?_eq]

/-- Directories list the same entries. -/
theorem childrenAt_perm (loc : Location) : (u.childrenAt loc).Perm (t.childrenAt loc) :=
  h.entries.filterMap _

/-! ## Changes -/

/-- What is at a place is taken from both. -/
lemma remove (loc : Location) : (t.remove loc).Relists (u.remove loc) where
  entries := h.entries.filter _
  workingDirectory := h.workingDirectory
  distinct := (List.filter_sublist.map Prod.fst).nodup h.distinct

/-- The same is put at a place in both. -/
lemma set (loc : Location) (entry : Entry) : (t.set loc entry).Relists (u.set loc entry) where
  entries := (h.entries.filter _).cons _
  workingDirectory := h.workingDirectory
  distinct := by
    refine List.nodup_cons.2 ⟨?_, (List.filter_sublist.map Prod.fst).nodup h.distinct⟩
    simp

end Relists

/-- **The same outcome on two trees**: the same error, or trees that differ in order only. -/
inductive SameOutcome : Except IoError FileTree → Except IoError FileTree → Prop
  /-- Both operations are refused. -/
  | error (e : IoError) : SameOutcome (.error e) (.error e)
  /-- Both operations are done. -/
  | ok {t u : FileTree} (h : t.Relists u) : SameOutcome (.ok t) (.ok u)

/-- The same answer on two trees, and trees that differ in order only. -/
structure SameEnd {ε α : Type} (r s : FileTree × Except ε α) : Prop where
  /-- The trees. -/
  trees : r.1.Relists s.1
  /-- The answers. -/
  answers : s.2 = r.2

namespace Relists

variable {t u : FileTree} (h : t.Relists u)
include h

/-- The same file is put. -/
theorem writeFile (p : Path) (content : Content) :
    SameOutcome (t.writeFile p content) (u.writeFile p content) := by
  unfold FileTree.writeFile
  rw [h.locate_eq]
  cases t.locate p with
  | error e => exact .error e
  | ok place =>
    dsimp only [bind, Except.bind]
    rw [h.at?_eq]
    split
    · exact .error _
    all_goals
      split
      · exact .error _
      · exact .ok (h.set place _)

/-- The same file is removed. -/
theorem removeFile (p : Path) : SameOutcome (t.removeFile p) (u.removeFile p) := by
  unfold FileTree.removeFile
  rw [h.locate_eq, h.find_eq]
  cases t.locate p with
  | error e => exact .error e
  | ok place =>
    cases t.find p with
    | error e => exact .error e
    | ok entry =>
      cases entry with
      | directory => exact .error _
      | file content => exact .ok (h.remove place)

/-- The same file is moved. -/
theorem rename (source target : Path) :
    SameOutcome (t.rename source target) (u.rename source target) := by
  unfold FileTree.rename
  rw [h.locate_eq source, h.find_eq, h.locate_eq target]
  cases t.locate source with
  | error e => exact .error e
  | ok origin =>
    cases t.find source with
    | error e => exact .error e
    | ok entry =>
      cases entry with
      | directory => exact .error _
      | file content =>
        cases t.locate target with
        | error e => exact .error e
        | ok place =>
          dsimp only [bind, Except.bind]
          rw [h.at?_eq]
          split
          · exact .error _
          · split
            · exact .error _
            · exact .ok ((h.remove origin).set place _)

/-- The same directory is made. -/
lemma makeDirectory (start : Location) (steps : List Path.Component) :
    SameOutcome (t.makeDirectory start steps) (u.makeDirectory start steps) := by
  unfold FileTree.makeDirectory
  rw [h.descend_eq]
  cases t.descend start steps with
  | error e => exact .error e
  | ok place =>
    dsimp only [bind, Except.bind]
    rw [h.at?_eq]
    split
    · exact .error _
    · exact .ok (h.set place _)

/-- The same last directory is made, or is there already. -/
lemma makeLast (start : Location) (steps : List Path.Component) :
    SameEnd (t.makeLast start steps) (u.makeLast start steps) := by
  have hleads : u.leadsToDirectory start steps = t.leadsToDirectory start steps := by
    simp only [leadsToDirectory, h.descend_eq, h.at?_eq]
  have hmade := h.makeDirectory start steps
  unfold FileTree.makeLast
  rw [hleads]
  generalize t.makeDirectory start steps = r at hmade ⊢
  generalize u.makeDirectory start steps = s at hmade ⊢
  cases hmade with
  | error e => exact ⟨h, rfl⟩
  | ok hsame => exact ⟨hsame, rfl⟩

end Relists

/-- The last directory is made after those on the way to it, if the way is missing. -/
lemma makeDirectories_cons (t : FileTree) (start : Location) (last : Path.Component)
    (before : List Path.Component) :
    t.makeDirectories start (last :: before) =
      match t.makeDirectory start (last :: before).reverse with
      | .error .notFound =>
        match t.makeDirectories start before with
        | (t, .ok ()) => t.makeLast start (last :: before).reverse
        | (t, .error e) => (t, .error e)
      | _ => t.makeLast start (last :: before).reverse := by
  rw [makeDirectories]
  rfl

namespace Relists

variable {t u : FileTree} (h : t.Relists u)
include h

/-- The same directories are made. -/
lemma makeDirectories (start : Location) (reversed : List Path.Component) :
    SameEnd (t.makeDirectories start reversed) (u.makeDirectories start reversed) := by
  induction reversed with
  | nil => exact ⟨h, rfl⟩
  | cons last before ih =>
    have hmade := h.makeDirectory start (last :: before).reverse
    have hlast := h.makeLast start (last :: before).reverse
    rw [makeDirectories_cons, makeDirectories_cons]
    generalize t.makeDirectory start (last :: before).reverse = r at hmade ⊢
    generalize u.makeDirectory start (last :: before).reverse = s at hmade ⊢
    cases hmade with
    | ok _ => exact hlast
    | error e =>
      cases e with
      | notFound =>
        generalize t.makeDirectories start before = r at ih ⊢
        generalize u.makeDirectories start before = s at ih ⊢
        obtain ⟨t', answer⟩ := r
        obtain ⟨u', answer'⟩ := s
        obtain ⟨hsame, rfl : answer' = answer⟩ := ih
        cases answer' with
        | error e => exact ⟨hsame, rfl⟩
        | ok _ => exact hsame.makeLast start _
      | _ => exact hlast

/-- The same directories are made on the way that a path leads. -/
theorem createDirectories (p : Path) :
    SameEnd (t.createDirectories p) (u.createDirectories p) := by
  rw [FileTree.createDirectories, FileTree.createDirectories, startOf, startOf,
    h.workingDirectory]
  exact h.makeDirectories _ _

end Relists

end FileTree

end CardTable
