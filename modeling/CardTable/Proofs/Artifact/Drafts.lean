import CardTable.Proofs.Table.BadIds
import CardTable.Proofs.Compile.Compilations
import CardTable.Proofs.Artifact.Leftovers

set_option autoImplicit false

/-!
# Staging files

A table that is made in stages leaves nothing behind but what is in its staging file, wherever its
making ends, and the guard removes that. Only companions of an earlier use are gone. So the table is
committed as a whole, or the files are those that the making began with, without these companions.
Where nothing happens from outside and no companion is in the way, writing in stages is writing at
one go. All this is about staging files whose names are no addresses.

## Main definitions

* `CardTable.Artifact.Action.Keeps` — steps that keep to what holds of the files.
* `CardTable.Artifact.IsDraft` — trees that differ in the staging file only.

## Main results

* `CardTable.Artifact.isDraft_openStore` — what is left when the staging file has been opened.
* `CardTable.Artifact.keeps_fill` — the making of a table leaves nothing but a draft.
* `CardTable.Artifact.IsDraft.removeStale_eq` — the guard leaves what there was before.
* `CardTable.Artifact.build_cases` — how a table is built.
* `CardTable.Artifact.writeGuarded_quiet` — writing in stages is writing.
-/

namespace CardTable

namespace Artifact

/-! ## Steps -/

section Steps

variable {α β : Type}

/-- Steps one after the other: the first that fails is the last. -/
lemma Action.on_bind (x : Action α) (f : α → Action β) (t : FileTree) :
    Action.on (x >>= f) t =
      match Action.on x t with
      | (.ok a, u) => Action.on (f a) u
      | (.error e, u) => (.error e, u) := by
  unfold Action.on
  rw [ExceptT.run_bind, StateT.run_bind]
  show (match x.run.run t with | (a, u) => _) = _
  rcases x.run.run t with ⟨a | a, u⟩
  · rfl
  · rfl

/-- Steps that go through have gone through one after the other. -/
lemma Action.exists_of_bind {x : Action α} {f : α → Action β} {t v : FileTree} {b : β}
    (h : Action.on (x >>= f) t = (.ok b, v)) :
    ∃ a u, Action.on x t = (.ok a, u) ∧ Action.on (f a) u = (.ok b, v) := by
  rw [Action.on_bind] at h
  split at h
  · next a u hx => exact ⟨a, u, hx, h⟩
  · cases congrArg Prod.fst h

/-- A step that does nothing leaves the files alone. -/
lemma Action.snd_on_bind_pure (x : Action α) (b : β) (t : FileTree) :
    (Action.on (x >>= fun _ => pure b) t).2 = (Action.on x t).2 := by
  rw [Action.on_bind]
  rcases Action.on x t with ⟨e | a, u⟩ <;> rfl

/-- What comes of a step that does nothing after it. -/
lemma Action.fst_on_bind_pure (x : Action α) (b : β) (t : FileTree) :
    (Action.on (x >>= fun _ => pure b) t).1 = (Action.on x t).1.map fun _ => b := by
  rw [Action.on_bind]
  rcases Action.on x t with ⟨e | a, u⟩ <;> rfl

/-- Steps keep to what holds of the files, whether they fail or not. -/
def Action.Keeps (P : FileTree → Prop) (x : Action α) : Prop :=
  ∀ t, P t → P (Action.on x t).2

variable {P : FileTree → Prop}

/-- A step that does nothing keeps to everything. -/
lemma Action.Keeps.pure (a : α) : Action.Keeps P (Pure.pure a : Action α) :=
  fun _ h => h

/-- A failure leaves the files as they are. -/
lemma Action.Keeps.throw (e : ArtifactError) :
    Action.Keeps P (MonadExcept.throw e : Action α) :=
  fun _ h => h

/-- An answer that is there already leaves the files as they are. -/
lemma Action.Keeps.ofExcept (r : Except ArtifactError α) :
    Action.Keeps P (MonadExcept.ofExcept r : Action α) := by
  cases r with
  | ok a => exact .pure a
  | error e => exact .throw e

/-- Steps one after the other keep to what each of them keeps to. -/
lemma Action.Keeps.bind {x : Action α} {f : α → Action β} (hx : Action.Keeps P x)
    (hf : ∀ a, Action.Keeps P (f a)) : Action.Keeps P (x >>= f) := by
  intro t ht
  have hkept := hx t ht
  rw [Action.on_bind]
  rcases hdone : Action.on x t with ⟨e | a, u⟩
  · rw [hdone] at hkept
    exact hkept
  · rw [hdone] at hkept
    exact hf a u hkept

/-- Steps for one thing after the other keep to what each of them keeps to. -/
lemma Action.Keeps.forM {f : α → Action PUnit} (hf : ∀ a, Action.Keeps P (f a)) (xs : List α) :
    Action.Keeps P (xs.forM f) := by
  induction xs with
  | nil => exact .pure _
  | cons x rest ih => exact .bind (hf x) fun _ => ih

end Steps

/-- Putting content into a file. -/
lemma on_put (file : Path) (content : Content) (t : FileTree) :
    Action.on (put file content) t =
      match t.writeFile file content with
      | .ok u => (.ok (), u)
      | .error e => (.error (.io file e), t) := by
  unfold put
  rw [Action.on_bind]
  show Action.on (match t.writeFile file content with
    | .ok t => set t
    | .error e => throw (.io file e)) t = _
  cases t.writeFile file content <;> rfl

/-- Moving a file. -/
lemma on_move (source target : Path) (t : FileTree) :
    Action.on (move source target) t =
      match t.rename source target with
      | .ok u => (.ok (), u)
      | .error e => (.error (.io target e), t) := by
  unfold move
  rw [Action.on_bind]
  show Action.on (match t.rename source target with
    | .ok t => set t
    | .error e => throw (.io target e)) t = _
  cases t.rename source target <;> rfl

/-! ## The staging file -/

/-- Whether the tree `u` is the tree `t`, or the tree `t` with something in the staging file. -/
def IsDraft (t : FileTree) (staging : Path) (u : FileTree) : Prop :=
  u = t ∨ ∃ content, t.writeFile staging content = .ok u

section Draft

variable {t u : FileTree} {staging : Path}

/-- A draft has the same directories. -/
lemma IsDraft.sameDirectories (h : IsDraft t staging u) : FileTree.SameDirectories t u := by
  rcases h with rfl | ⟨content, hwrite⟩
  · exact .refl u
  · obtain ⟨place, -, hfree, hput⟩ :=
      FileTree.writeFile_eq_ok (FileTree.exists_writeFile_iff.1 ⟨u, hwrite⟩) content
    obtain rfl := Except.ok.inj (hput.symm.trans hwrite)
    exact .set hfree content

/-- Whatever was in the staging file, what is put into it is there. -/
lemma IsDraft.writeFile_eq (h : IsDraft t staging u) (content : Content) :
    u.writeFile staging content = t.writeFile staging content := by
  rcases h with rfl | ⟨first, hfirst⟩
  · rfl
  · exact FileTree.writeFile_writeFile hfirst content

/-- **The guard** leaves what there was before the staging file was opened.

**Proof sketch.** Either the staging file was not opened, and then there is nothing to remove; or
something was put at a place where nothing was, and removing it brings the tree back. -/
theorem IsDraft.removeStale_eq (h : IsDraft t staging u)
    (hempty : ∀ place, t.locate staging = .ok place → t.at? place = none) :
    (removeStale u staging).1 = t := by
  rcases h with rfl | ⟨content, hwrite⟩
  · unfold removeStale
    rcases u.removeFile_cases staging with ⟨hfile, -⟩ | ⟨-, e, herror⟩
    · obtain ⟨place, content, hplace, hentry, -⟩ := FileTree.isFile_iff.1 hfile
      cases (hempty place hplace).symm.trans hentry
    · rw [herror]
      cases e <;> rfl
  · -- the staging file is where nothing was, so that its removal brings the tree back
    have hroom : t.HasRoom staging := FileTree.exists_writeFile_iff.1 ⟨u, hwrite⟩
    obtain ⟨place, hplace, hfree, hput⟩ := FileTree.writeFile_eq_ok hroom content
    obtain rfl := Except.ok.inj (hput.symm.trans hwrite)
    have hroot := FileTree.ne_root hfree
    have hplace' := (FileTree.SameDirectories.set hfree content).locate_iff.2 hplace
    rw [removeStale, FileTree.removeFile_of_find hplace' (FileTree.find_of_writeFile hwrite)]
    exact FileTree.remove_set hroot (hempty place hplace) _

/-- **A draft** stays one when companions are deleted, as these are at other places. -/
lemma IsDraft.recovered {artifact : Path} (h : IsDraft t (stagingPath artifact) u)
    (s : Surroundings) :
    IsDraft (recovered s t artifact) (stagingPath artifact) (recovered s u artifact) := by
  rcases h with rfl | ⟨content, hwrite⟩
  · exact .inl rfl
  · have hroom : t.HasRoom (stagingPath artifact) := FileTree.exists_writeFile_iff.1 ⟨u, hwrite⟩
    have hsame := sameDirectories_recovered s t artifact
    obtain ⟨place, hplace, hfree, hput⟩ := FileTree.writeFile_eq_ok hroom content
    obtain ⟨place', hplace', -, hput'⟩ :=
      FileTree.writeFile_eq_ok (hroom.of_sameDirectories hsame) content
    obtain rfl := Except.ok.inj (hplace.symm.trans (hsame.locate_iff.1 hplace'))
    obtain rfl := Except.ok.inj (hput.symm.trans hwrite)
    rw [recovered_set hplace hfree]
    exact .inr ⟨content, hput'⟩

/-- Putting something into the staging file. -/
lemma keeps_put (content : Content) :
    Action.Keeps (IsDraft t staging) (put staging content) := by
  intro u hu
  rw [on_put, hu.writeFile_eq]
  cases hwrite : t.writeFile staging content with
  | ok v => exact .inr ⟨content, hwrite⟩
  | error e => exact hu

end Draft

/-! ## Stages -/

section Stages

variable {artifact : Path} (haddress : isAddress (stagingPath artifact) = false)
  (s : Surroundings) {t u : FileTree}
include haddress

/-- What goes to the store goes to the staging file. -/
lemma deposit_eq_put (stage : Stage) (content : Content) :
    deposit s artifact stage content = put (stagingPath artifact) content := by
  rw [deposit, haddress]
  rfl

/-- Stages leave nothing but a draft. -/
lemma keeps_pass (stage : Stage) :
    Action.Keeps (IsDraft t (stagingPath artifact)) (pass s artifact stage) := by
  refine .bind ?_ fun _ => ?_
  · unfold putDraft
    split
    · exact .pure ()
    · rw [deposit_eq_put haddress]
      exact keeps_put _
  · unfold check
    split
    · exact .pure ()
    · exact .throw _

/-- **A stage that does not fail** is gone through if there is room for the staging file. -/
lemma on_pass_eq_ok {stage : Stage} (hroom : t.HasRoom (stagingPath artifact))
    (hnone : s.failure stage = none) : (Action.on (pass s artifact stage) t).1 = .ok () := by
  unfold pass putDraft check
  rw [hnone, Action.on_bind]
  cases s.draft stage with
  | none => rfl
  | some content =>
    obtain ⟨u, hu⟩ := FileTree.exists_writeFile_iff.2 hroom
    dsimp only
    rw [deposit_eq_put haddress, on_put, hu]
    rfl

omit haddress in
/-- A stage that is gone through does not fail. -/
lemma failure_eq_none_of_pass {stage : Stage}
    (h : Action.on (pass s artifact stage) t = (.ok (), u)) : s.failure stage = none := by
  obtain ⟨-, v, -, hcheck⟩ := Action.exists_of_bind h
  unfold check at hcheck
  split at hcheck
  · assumption
  · cases congrArg Prod.fst hcheck

/-- The making of the staging file. -/
lemma on_makeFile (t : FileTree) :
    Action.on (makeFile s artifact) t =
      if canOpen t (stagingPath artifact) = true then
        Action.on (put (stagingPath artifact) (.bytes .empty)) t
      else (.error (.store (.cannotOpen (stagingPath artifact).text)), t) := by
  unfold makeFile
  rw [haddress, if_neg Bool.false_ne_true]
  show Action.on (if canOpen t (stagingPath artifact) = true then _ else _) t = _
  split <;> rfl

omit haddress in
/-- The sweeping of a companion. -/
lemma on_sweep (c : Companion) (t : FileTree) :
    Action.on (sweep s artifact c) t =
      match s.failure (.recovery c) with
      | some e => (.error e, t)
      | none =>
        if c = .log ∧ t.isDirectory (c.path artifact) = true then (.error (.store .cannotDelete), t)
        else (.ok (), swept t (c.path artifact)) := by
  unfold sweep check
  rw [Action.on_bind]
  cases s.failure (.recovery c) with
  | some e => rfl
  | none =>
    show Action.on (if c = .log ∧ t.isDirectory (c.path artifact) = true then _ else _) t = _
    split <;> rfl

/-- **The recovery** deletes the companions to which the store comes. -/
lemma on_recover (hopening : s.failure .opening = none)
    (hopen : canOpen t (stagingPath artifact) = true) :
    (Action.on (recover s artifact) t).2 = recovered s t artifact := by
  have hcomes : ∀ c, comesTo s t artifact c = ((s.failure (.recovery .journal)).isNone &&
      (decide (c = .journal) || (s.failure (.recovery .log)).isNone)) := by
    intro c
    rw [comesTo, hopening, hopen]
    rfl
  unfold recover recovered clearOf
  rw [haddress, if_neg Bool.false_ne_true]
  show (Action.on (sweep s artifact .journal >>= fun _ => sweep s artifact .log >>= _) t).2 = _
  rw [hcomes, hcomes, Action.on_bind, on_sweep]
  cases s.failure (.recovery .journal) with
  | some e => rfl
  | none =>
    show (Action.on (sweep s artifact .log >>= fun _ => pure PUnit.unit)
      (swept t (Companion.journal.path artifact))).2 = _
    rw [Action.snd_on_bind_pure, on_sweep]
    cases s.failure (.recovery .log) with
    | some e => rfl
    | none =>
      dsimp only
      by_cases hdirectory : (swept t (Companion.journal.path artifact)).isDirectory
          (Companion.log.path artifact) = true
      · -- a directory holds nothing, and is not swept
        rw [if_pos ⟨rfl, hdirectory⟩]
        refine (swept_of_not_isLeftover ?_).symm
        rintro ⟨content, hfound, -⟩
        rw [FileTree.isDirectory, hfound] at hdirectory
        cases hdirectory
      · rw [if_neg fun h => hdirectory h.2]
        rfl

/-- **When the staging file has been opened**, the companions to which the store came are gone, and
there may be a draft.

**Proof sketch.** Where the opening fails or the file cannot be opened, the store comes to no
companion, and there is nothing but a draft (`keeps_pass`). Otherwise its file is made, which is a
draft again, and the recovery deletes from it what it would delete without a draft. -/
theorem isDraft_openStore (t : FileTree) :
    IsDraft (recovered s t artifact) (stagingPath artifact)
      (Action.on (openStore s artifact) t).2 := by
  have hclosed : ∀ {u : FileTree}, IsDraft t (stagingPath artifact) u →
      (∀ c, comesTo s t artifact c = false) →
        IsDraft (recovered s t artifact) (stagingPath artifact) u := by
    intro u hu hnone
    rw [recovered_eq_self fun c hcomes => absurd ((hnone c).symm.trans hcomes) Bool.false_ne_true]
    exact hu
  have hpassed := keeps_pass haddress s .opening t (.inl rfl)
  unfold openStore
  rw [Action.on_bind]
  rcases hpass : Action.on (pass s artifact .opening) t with ⟨e | done, u⟩
  · rw [hpass] at hpassed
    refine hclosed hpassed fun c => Bool.eq_false_iff.2 fun hcomes => ?_
    obtain ⟨hopening, hopen⟩ := openable_of_comesTo hcomes
    have hok := on_pass_eq_ok haddress s (canOpen_iff.1 hopen).1 hopening
    rw [hpass] at hok
    cases hok
  · rw [hpass] at hpassed
    have hopening := failure_eq_none_of_pass s hpass
    have hcan := canOpen_of_sameDirectories hpassed.sameDirectories (stagingPath artifact)
    dsimp only
    rw [Action.on_bind, on_makeFile haddress, hcan]
    by_cases hopen : canOpen t (stagingPath artifact) = true
    · have hmade := keeps_put (.bytes .empty) u hpassed
      rw [if_pos hopen]
      obtain ⟨v, hv⟩ := FileTree.exists_writeFile_iff.2 (canOpen_iff.1 hopen).1
      rw [on_put, hpassed.writeFile_eq, hv] at hmade ⊢
      have hcan' := canOpen_of_sameDirectories hmade.sameDirectories (stagingPath artifact)
      dsimp only
      rw [on_recover haddress s hopening (hcan'.trans hopen)]
      exact hmade.recovered s
    · rw [if_neg hopen]
      refine hclosed hpassed fun c => Bool.eq_false_iff.2 fun hcomes => ?_
      exact hopen (openable_of_comesTo hcomes).2

/-- Rows leave nothing but a draft. -/
lemma keeps_putRows (columns : List Column) (row : Nat) (table : StoredTable)
    (cards : List CorpusCard) :
    Action.Keeps (IsDraft t (stagingPath artifact))
      (putRows s artifact columns row table cards) := by
  induction cards generalizing row table with
  | nil => exact .pure _
  | cons c rest ih =>
    refine .bind ?_ fun table => ih (row + 1) table
    unfold putRow
    split
    · exact .throw _
    · exact .bind (keeps_pass haddress s _) fun _ => .ofExcept _

/-- **The making of a table leaves nothing but a draft**, wherever it ends. -/
theorem keeps_fill (columns : List Column) (cards : List CorpusCard) :
    Action.Keeps (IsDraft t (stagingPath artifact)) (fill s artifact columns cards) :=
  .bind (.forM (keeps_pass haddress s) _) fun _ =>
  .bind (.ofExcept _) fun _ =>
  .bind (keeps_pass haddress s _) fun _ =>
  .bind (keeps_putRows haddress s columns _ _ cards) fun _ =>
  .bind (.forM (keeps_pass haddress s) _) fun _ => .pure _

end Stages

/-! ## Tables -/

section Tables

variable (s : Surroundings) {artifact : Path} {columns : List Column}

/-- Answers that are there already leave the files alone. -/
lemma on_ofExcept {α : Type} (r : Except ArtifactError α) (t : FileTree) :
    Action.on (MonadExcept.ofExcept r : Action α) t = (r, t) := by
  cases r <;> rfl

/-- A row that is added is the row of the table. -/
lemma addRows_of_putRow {row : Nat} {table filled : StoredTable} {c : CorpusCard}
    {t u : FileTree}
    (h : Action.on (putRow s artifact columns row table c) t = (.ok filled, u)) :
    addRows columns row table [c] = .ok filled := by
  unfold putRow at h
  split at h
  · cases congrArg Prod.fst h
  · obtain ⟨-, v, -, h⟩ := Action.exists_of_bind h
    rw [on_ofExcept] at h
    exact congrArg Prod.fst h

/-- **Rows that are added** are the rows of the table, one for each card. -/
theorem addRows_of_putRows {row rows : Nat} {table filled : StoredTable} {cards : List CorpusCard}
    {t u : FileTree}
    (h : Action.on (putRows s artifact columns row table cards) t = (.ok (filled, rows), u)) :
    rows = row + cards.length ∧ addRows columns row table cards = .ok filled := by
  induction cards generalizing row table t with
  | nil =>
    obtain ⟨rfl, rfl⟩ := Prod.mk.inj (Except.ok.inj (congrArg Prod.fst h))
    exact ⟨rfl, rfl⟩
  | cons c rest ih =>
    obtain ⟨next, v, hrow, h⟩ := Action.exists_of_bind h
    obtain ⟨rfl, hrest⟩ := ih h
    refine ⟨by rw [List.length_cons]; omega, ?_⟩
    rw [← List.singleton_append, addRows_append, addRows_of_putRow s hrow]
    exact hrest

/-- **A table that is made** is the table of the cards. -/
theorem tableOf_of_fill {rows : Nat} {table : StoredTable} {cards : List CorpusCard}
    {t u : FileTree} (h : Action.on (fill s artifact columns cards) t = (.ok (table, rows), u)) :
    rows = cards.length ∧ tableOf columns cards = .ok table := by
  obtain ⟨-, created, -, h⟩ := Action.exists_of_bind h
  obtain ⟨empty, checked, hempty, h⟩ := Action.exists_of_bind h
  obtain ⟨-, begun, -, h⟩ := Action.exists_of_bind h
  obtain ⟨filled, added, hfilled, h⟩ := Action.exists_of_bind h
  obtain ⟨-, closed, -, h⟩ := Action.exists_of_bind h
  obtain rfl : filled = (table, rows) := Except.ok.inj (congrArg Prod.fst h)
  obtain ⟨hrows, htable⟩ := addRows_of_putRows s hfilled
  rw [on_ofExcept] at hempty
  rw [Nat.zero_add] at hrows
  refine ⟨hrows, ?_⟩
  rw [tableOf, (Prod.mk.inj hempty).1]
  exact htable

/-- **How a table is built**: it is committed, or nothing but a draft is left. The companions to
which the store came are gone in both cases.

**Proof sketch.** What is there once the staging file has been opened is known
(`isDraft_openStore`). The table is filled in a draft (`keeps_fill`), and if that succeeds it is the
table of the cards (`tableOf_of_fill`). What was in the draft does not matter for the last two
stages, which put the table there and move it, that is, commit it. -/
theorem build_cases (haddress : isAddress (stagingPath artifact) = false) (t : FileTree)
    (columns : List Column) (cards : List CorpusCard) :
    (∃ table t', tableOf columns cards = .ok table ∧
        commit (recovered s t artifact) artifact table = (t', .ok ()) ∧
        Action.on (build s artifact columns cards) t = (.ok cards.length, t')) ∨
      ∃ e u, Action.on (build s artifact columns cards) t = (.error e, u) ∧
        IsDraft (recovered s t artifact) (stagingPath artifact) u := by
  have hopened := isDraft_openStore haddress s t
  unfold build
  rw [Action.on_bind]
  rcases hopen : Action.on (openStore s artifact) t with ⟨e | done, u⟩
  · rw [hopen] at hopened
    exact .inr ⟨e, u, rfl, hopened⟩
  rw [hopen] at hopened
  have hdraft := keeps_fill haddress s columns cards u hopened
  dsimp only
  rw [Action.on_bind]
  rcases hfill : Action.on (fill s artifact columns cards) u with ⟨e | ⟨table, rows⟩, u⟩
  · rw [hfill] at hdraft
    exact .inr ⟨e, u, rfl, hdraft⟩
  obtain ⟨rfl, htable⟩ := tableOf_of_fill s hfill
  rw [hfill] at hdraft
  -- whatever was in the staging file, the table is put there as if it had not been opened before
  dsimp only
  rw [Action.on_bind, deposit_eq_put haddress, on_put, hdraft.writeFile_eq]
  cases hput : (recovered s t artifact).writeFile (stagingPath artifact) (.table table) with
  | error e => exact .inr ⟨_, u, rfl, hdraft⟩
  | ok staged =>
    have hstaged : IsDraft (recovered s t artifact) (stagingPath artifact) staged := .inr ⟨_, hput⟩
    dsimp only
    rw [Action.on_bind]
    unfold check
    cases s.failure .moving with
    | some e => exact .inr ⟨e, staged, rfl, hstaged⟩
    | none =>
      show (∃ table t', _ ∧ _ ∧ Action.on (move (stagingPath artifact) artifact >>= _) staged = _) ∨
        ∃ e u, Action.on (move (stagingPath artifact) artifact >>= _) staged = _ ∧ _
      rw [Action.on_bind, on_move]
      cases hmove : staged.rename (stagingPath artifact) artifact with
      | error e => exact .inr ⟨_, staged, rfl, hstaged⟩
      | ok moved =>
        exact .inl ⟨table, moved, htable, commit_eq_ok_iff.2 ⟨haddress, staged, hput, hmove⟩, rfl⟩

end Tables

/-! ## After the preparations -/

/-- Nothing is where the preparations have removed what there was. -/
lemma at?_eq_none_of_prepare {t u : FileTree} {artifact : Path}
    (h : prepare t artifact = (u, .ok ())) :
    ∀ p, p = artifact ∨ p = stagingPath artifact →
      ∀ place, u.locate p = .ok place → u.at? place = none := by
  have hsame := sameDirectories_prepare t artifact
  rcases prepare_cases t artifact with hdiscard | ⟨-, e, hfailed⟩
  · rw [h] at hdiscard hsame
    intro p hp place hplace
    have hplace := hsame.locate_iff.1 hplace
    refine (isCleared_discard hdiscard.symm).1.gone place ?_
    rcases hp with rfl | rfl
    · exact .inl hplace
    · exact .inr hplace
  · cases congrArg Prod.snd (h.symm.trans hfailed)

/-- Nothing is at the staging file either once companions have been deleted. -/
lemma at?_recovered_eq_none {s : Surroundings} {t u : FileTree} {artifact : Path}
    (h : prepare t artifact = (u, .ok ())) (place : Location)
    (hplace : (recovered s u artifact).locate (stagingPath artifact) = .ok place) :
    (recovered s u artifact).at? place = none := by
  have hplace := (sameDirectories_recovered s u artifact).locate_iff.1 hplace
  cases hleft : (recovered s u artifact).at? place with
  | none => rfl
  | some entry =>
    cases (at?_eq_none_of_prepare h _ (.inr rfl) place hplace).symm.trans (at?_of_recovered hleft)

/-! ## Writing where nothing happens from outside -/

section Quiet

variable {artifact : Path} (columns : List Column)

/-- Nothing comes of a stage. -/
lemma on_pass_quiet (stage : Stage) (t : FileTree) :
    Action.on (pass .quiet artifact stage) t = (.ok (), t) :=
  rfl

/-- **The staging file is opened** just as the store opens it when the table is written at one
go. -/
lemma fst_on_openStore_quiet (haddress : isAddress (stagingPath artifact) = false) (t : FileTree) :
    (Action.on (openStore .quiet artifact) t).1 =
      match openError? t artifact with
      | some e => .error (.store e)
      | none => .ok () := by
  unfold openStore openError?
  dsimp only
  rw [Action.on_bind, on_pass_quiet, haddress, if_neg Bool.false_ne_true]
  dsimp only
  rw [Action.on_bind, on_makeFile haddress]
  by_cases hopen : canOpen t (stagingPath artifact) = true
  · obtain ⟨u, hu⟩ := FileTree.exists_writeFile_iff.2 (canOpen_iff.1 hopen).1
    have hdraft : IsDraft t (stagingPath artifact) u := .inr ⟨_, hu⟩
    have hsame := hdraft.sameDirectories.trans
      (sameDirectories_swept u (Companion.journal.path artifact))
    have hlog : (swept u (Companion.journal.path artifact)).isDirectory
        (Companion.log.path artifact) = t.isDirectory (Companion.log.path artifact) :=
      Bool.eq_iff_iff.2 hsame.isDirectory_iff
    rw [if_pos hopen, on_put, hu, if_neg (by simp [hopen])]
    dsimp only
    unfold recover
    rw [haddress, if_neg Bool.false_ne_true]
    show (Action.on (sweep .quiet artifact .journal >>= fun _ => _) u).1 = _
    rw [Action.on_bind, on_sweep]
    show (Action.on (sweep .quiet artifact .log >>= fun _ => pure PUnit.unit)
      (swept u (Companion.journal.path artifact))).1 = _
    rw [Action.fst_on_bind_pure, on_sweep, hlog]
    cases t.isDirectory (Companion.log.path artifact) <;> rfl
  · rw [if_neg hopen, if_pos (Bool.eq_false_iff.2 hopen)]

/-- A row that is added in stages is added. -/
lemma on_putRow_quiet (row : Nat) (table : StoredTable) (c : CorpusCard) (t : FileTree) :
    Action.on (putRow .quiet artifact columns row table c) t =
      (addRows columns row table [c], t) := by
  unfold putRow
  split
  · next hnull =>
    rw [addRows, StoredTable.insert_of_isNull hnull]
    rfl
  · rw [Action.on_bind, on_pass_quiet]
    exact on_ofExcept _ t

/-- Rows that are added in stages are added. -/
lemma on_putRows_quiet (row : Nat) (table : StoredTable) (cards : List CorpusCard)
    (t : FileTree) :
    Action.on (putRows .quiet artifact columns row table cards) t =
      ((addRows columns row table cards).map fun filled => (filled, row + cards.length), t) := by
  induction cards generalizing row table with
  | nil => rfl
  | cons c rest ih =>
    have hsplit : addRows columns row table (c :: rest) =
        (addRows columns row table [c]).bind fun next => addRows columns (row + 1) next rest :=
      addRows_append columns row table [c] rest
    rw [putRows, Action.on_bind, on_putRow_quiet, hsplit]
    cases addRows columns row table [c] with
    | error e => rfl
    | ok next =>
      have hcount : row + (c :: rest).length = row + 1 + rest.length := by
        rw [List.length_cons]
        omega
      rw [hcount]
      exact ih (row + 1) next

/-- A table that is made in stages is the table of the cards. -/
lemma on_fill_quiet (cards : List CorpusCard) (t : FileTree) :
    Action.on (fill .quiet artifact columns cards) t =
      ((tableOf columns cards).map fun table => (table, cards.length), t) := by
  unfold fill
  rw [Action.on_bind]
  show Action.on (MonadExcept.ofExcept _ >>= _) t = _
  rw [Action.on_bind, on_ofExcept, tableOf]
  cases (StoredTable.ofColumns (columns.map Column.definition)).mapError ArtifactError.store with
  | error e => rfl
  | ok table =>
    show Action.on (putRows .quiet artifact columns 0 table cards >>= _) t = _
    rw [Action.on_bind, on_putRows_quiet, Nat.zero_add]
    show _ = ((addRows columns 0 table cards).map _, t)
    cases addRows columns 0 table cards <;> rfl

/-- Building in stages gives the answer of a table that is made and committed, if the staging file
can be opened. -/
lemma fst_on_build_quiet (haddress : isAddress (stagingPath artifact) = false) {t : FileTree}
    (hkept : recovered .quiet t artifact = t) (cards : List CorpusCard) :
    (Action.on (build .quiet artifact columns cards) t).1 =
      match openError? t artifact with
      | some e => .error (.store e)
      | none => (tableOf columns cards).bind fun table =>
          (commit t artifact table).2.map fun _ => cards.length := by
  have hdraft := isDraft_openStore haddress .quiet t
  have hanswer := fst_on_openStore_quiet haddress t
  rw [hkept] at hdraft
  unfold build
  rw [Action.on_bind]
  rcases hopened : Action.on (openStore .quiet artifact) t with ⟨e | done, u⟩
  · rw [hopened] at hanswer
    cases hopen : openError? t artifact with
    | some cause =>
      rw [hopen] at hanswer
      exact congrArg Except.error (Except.error.inj hanswer)
    | none =>
      rw [hopen] at hanswer
      cases hanswer
  · rw [hopened] at hanswer hdraft
    cases hopen : openError? t artifact with
    | some cause =>
      rw [hopen] at hanswer
      cases hanswer
    | none =>
      dsimp only
      rw [Action.on_bind, on_fill_quiet]
      cases tableOf columns cards with
      | error e => rfl
      | ok table =>
        show (Action.on (deposit .quiet artifact .closing (.table table) >>= _) u).1 =
          (commit t artifact table).2.map _
        unfold commit
        dsimp only
        rw [Action.on_bind, deposit_eq_put haddress, on_put, hdraft.writeFile_eq, haddress,
          if_neg Bool.false_ne_true]
        cases hput : t.writeFile (stagingPath artifact) (.table table) with
        | error e => rfl
        | ok staged =>
          show (Action.on (move (stagingPath artifact) artifact >>= _) staged).1 = _
          rw [Action.on_bind, on_move]
          cases hmove : staged.rename (stagingPath artifact) artifact <;> simp only [hmove] <;> rfl

/-- **Writing in stages is writing** where nothing happens from outside, if the name of the staging
file is no address and no companion is deleted. -/
theorem writeGuarded_quiet (haddress : isAddress (stagingPath artifact) = false) {t : FileTree}
    (hkept : ∀ u, prepare t artifact = (u, .ok ()) → recovered .quiet u artifact = u)
    (cards : List CorpusCard) :
    writeGuarded .quiet t artifact columns cards = write t artifact columns cards := by
  unfold writeGuarded write
  rcases hprepare : prepare t artifact with ⟨u, e | done⟩
  · rfl
  dsimp only
  have hanswer := fst_on_build_quiet columns haddress (hkept u hprepare) cards
  have hbuilt := build_cases .quiet haddress u columns cards
  rw [hkept u hprepare] at hbuilt
  rcases hbuilt with ⟨table, t', htable, hcommit, hbuild⟩ | ⟨e, v, hbuild, hdraft⟩
  · rw [hbuild] at hanswer ⊢
    cases hopen : openError? u artifact with
    | some cause =>
      rw [hopen] at hanswer
      cases hanswer
    | none => simp only [htable, hcommit]
  · have hempty := at?_eq_none_of_prepare hprepare _ (.inr rfl)
    rw [hbuild] at hanswer ⊢
    dsimp only
    rw [hdraft.removeStale_eq hempty]
    cases hopen : openError? u artifact with
    | some cause =>
      rw [hopen] at hanswer
      rw [Except.error.inj hanswer]
    | none =>
      rw [hopen] at hanswer
      cases htable : tableOf columns cards with
      | error cause =>
        rw [htable] at hanswer
        rw [Except.error.inj hanswer]
      | ok table =>
        rw [htable] at hanswer
        rcases hcommit : commit u artifact table with ⟨w, cause | done⟩
        · have hcause : e = cause := by simpa [hcommit, Except.bind, Except.map] using hanswer
          simp only [hcommit, hcause, eq_of_commit_error hcommit]
        · simp [hcommit, Except.bind, Except.map] at hanswer

end Quiet

end Artifact

end CardTable
