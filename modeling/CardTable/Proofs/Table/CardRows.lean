import CardTable.Proofs.Artifact.Artifacts
import CardTable.Proofs.Corpus.Dates
import CardTable.Proofs.Table.Store
import Mathlib.Data.List.Forall2

set_option autoImplicit false

/-!
# The rows of a written table

A table that is written has one row for each card. The rows stand in the order of the cards unless
the key orders them, and each cell is found in the row by the name of its column. The table is what
is found at the artifact afterwards. Dates are stored as they are written: they are no numbers.

## Main definitions

* `CardTable.StoredTable.Represents` — the rows of a table stand for the elements of a list.
* `CardTable.StoredTable.cellNamed?` — the cell of a row under the name of a column.
* `CardTable.Cell.ofText?` — the cell of a text that may be missing.

## Main results

* `CardTable.Artifact.represents_of_tableOf` — the rows of the table of some cards.
* `CardTable.Artifact.exists_table_of_write` — what is at the artifact once it is written.
* `CardTable.StoredTable.cellNamed?_of_field`, `CardTable.StoredTable.cellNamed?_of_derived` — the
  cells of a row.
-/

namespace CardTable

namespace StoredTable

/-! ## The order of the rows -/

/-- Rows stand in the order of their keys, which are whole numbers, if the key orders them. -/
def IsOrdered (t : StoredTable) : Prop :=
  t.keyKind = .integer → (∀ row ∈ t.rows, ∃ n, keyOf row = .integer n) ∧
    t.rows.Pairwise fun a b => rowBefore a b = true

/-- Rows with whole numbers as keys stand in the order of these. -/
lemma rowBefore_iff {a b : List Cell} :
    rowBefore a b = true ↔ ∃ m n, keyOf a = .integer m ∧ keyOf b = .integer n ∧ m < n := by
  unfold rowBefore
  split
  · next m n ha hb => simp [ha, hb]
  · next hother =>
    refine iff_of_false Bool.false_ne_true ?_
    rintro ⟨m, n, ha, hb, -⟩
    exact hother m n ha hb

/-- A row with a key of its own is put where it belongs. -/
lemma pairwise_insertOrdered {row : List Cell} {rows : List (List Cell)} {n : Int}
    (hkey : keyOf row = .integer n) (hkeys : ∀ other ∈ rows, ∃ m, keyOf other = .integer m)
    (hfresh : ∀ other ∈ rows, keyOf other ≠ .integer n)
    (hrows : rows.Pairwise fun a b => rowBefore a b = true) :
    (insertOrdered row rows).Pairwise fun a b => rowBefore a b = true := by
  induction rows with
  | nil => exact List.pairwise_singleton ..
  | cons other rest ih =>
    obtain ⟨hfirst, hrest⟩ := List.pairwise_cons.1 hrows
    obtain ⟨m, hm⟩ := hkeys other (List.mem_cons_self ..)
    unfold insertOrdered
    split
    · next hbefore =>
      refine List.pairwise_cons.2 ⟨List.forall_mem_cons.2 ⟨hbefore, fun later hlater => ?_⟩, hrows⟩
      obtain ⟨k, m', hk, hm', hlt⟩ := rowBefore_iff.1 hbefore
      obtain ⟨m'', l, hm'', hl, hlt'⟩ := rowBefore_iff.1 (hfirst later hlater)
      obtain rfl := Cell.integer.inj (hm'.symm.trans hm'')
      exact rowBefore_iff.2 ⟨k, l, hk, hl, hlt.trans hlt'⟩
    · next hnot =>
      have hlater : rowBefore other row = true := by
        have hne : m ≠ n := fun heq => hfresh other (List.mem_cons_self ..) (heq ▸ hm)
        have hnlt : ¬ n < m := fun hlt => hnot (rowBefore_iff.2 ⟨n, m, hkey, hm, hlt⟩)
        exact rowBefore_iff.2 ⟨m, n, hm, hkey, by omega⟩
      refine List.pairwise_cons.2 ⟨fun later hmem => ?_, ?_⟩
      · rcases List.mem_cons.1 ((insertOrdered_perm row rest).mem_iff.1 hmem) with rfl | hmem
        · exact hlater
        · exact hfirst later hmem
      · exact ih (fun later hmem => hkeys later (List.mem_cons_of_mem _ hmem))
          (fun later hmem => hfresh later (List.mem_cons_of_mem _ hmem)) hrest

/-- A row that is taken is put where it belongs, or at the end if the key does not order the
rows. -/
lemma rows_of_insert {t t' : StoredTable} {row : List Cell} (h : t.insert row = .ok t') :
    (t.keyKind ≠ .integer → t'.rows = t.rows ++ [t.storedRow row]) ∧
      (t.IsOrdered → t'.IsOrdered) := by
  unfold insert at h
  split at h
  · cases h
  dsimp only at h
  split at h
  · next n hkind hkey =>
    split at h
    · cases h
    · next hnew =>
      obtain rfl := Except.ok.inj h
      refine ⟨fun hother => absurd hkind hother, fun hordered _ => ?_⟩
      obtain ⟨hkeys, hrows⟩ := hordered hkind
      have hfresh : ∀ other ∈ t.rows, keyOf other ≠ .integer n := by
        intro other hother heq
        refine hnew (List.any_eq_true.2 ⟨other, hother, ?_⟩)
        rw [heq]
        exact beq_self_eq_true _
      refine ⟨fun other hother => ?_, pairwise_insertOrdered hkey hkeys hfresh hrows⟩
      rcases List.mem_cons.1 ((insertOrdered_perm _ _).mem_iff.1 hother) with rfl | hother
      · exact ⟨n, hkey⟩
      · exact hkeys other hother
  · cases h
  · next hkind _ =>
    split at h
    · cases h
    · obtain rfl := Except.ok.inj h
      exact ⟨fun _ => rfl, fun _ hother => absurd hother hkind⟩

/-! ## Rows that stand for something -/

/-- The rows of a table stand for the elements of a list, one row for each element: in the order of
the list, or in the order of the key if this is a whole number. -/
structure Represents {α : Type} (t : StoredTable) (Stands : α → List Cell → Prop) (xs : List α) :
    Prop where
  /-- There is one row for each element, in this order unless the key orders the rows. -/
  rows : ∃ rows, List.Forall₂ Stands xs rows ∧ t.rows.Perm rows ∧
    (t.keyKind ≠ .integer → t.rows = rows)
  /-- A key that is a whole number orders the rows. -/
  ordered : t.IsOrdered

namespace Represents

variable {α β : Type} {t : StoredTable} {Stands Stands' : α → List Cell → Prop} {xs : List α}

/-- There are as many rows as elements. -/
lemma length_eq (h : t.Represents Stands xs) : t.rows.length = xs.length := by
  obtain ⟨rows, hrows, hperm, -⟩ := h.rows
  rw [hperm.length_eq, hrows.length_eq]

/-- Rows that stand for elements stand for them in another sense too if each of them does. -/
lemma imp (h : t.Represents Stands xs) (himp : ∀ x ∈ xs, ∀ row, Stands x row → Stands' x row) :
    t.Represents Stands' xs := by
  obtain ⟨rows, hrows, hperm, hexact⟩ := h.rows
  refine ⟨⟨rows, ?_, hperm, hexact⟩, h.ordered⟩
  clear h hperm hexact
  induction hrows with
  | nil => exact .nil
  | cons hrow _ ih =>
    rw [List.forall_mem_cons] at himp
    exact .cons (himp.1 _ hrow) (ih himp.2)

/-- Rows that stand for images stand for the elements. -/
lemma of_map {f : β → α} {ys : List β} (h : t.Represents Stands (ys.map f)) :
    t.Represents (fun y row => Stands (f y) row) ys := by
  obtain ⟨rows, hrows, hperm, hexact⟩ := h.rows
  exact ⟨⟨rows, List.forall₂_map_left_iff.1 hrows, hperm, hexact⟩, h.ordered⟩

end Represents

/-! ## Cells by the names of their columns -/

/-- The cell of a row under the name of a column. -/
def cellNamed? (t : StoredTable) (row : List Cell) (name : String) : Option Cell :=
  ((t.columns.map ColumnDefinition.name).zip row).lookup name

end StoredTable

/-- What is listed once under each name is found under its name. -/
lemma lookup_map_of_nodup {α β : Type} {name : α → String} {entry : α → β} {xs : List α}
    (hnames : (xs.map name).Nodup) {x : α} (hx : x ∈ xs) :
    (xs.map fun x => (name x, entry x)).lookup (name x) = some (entry x) := by
  induction xs with
  | nil => exact absurd hx List.not_mem_nil
  | cons y ys ih =>
    rw [List.map_cons, List.nodup_cons] at hnames
    rw [List.map_cons, List.lookup_cons]
    rcases List.mem_cons.1 hx with rfl | hx
    · rw [beq_self_eq_true]
    · have hne : (name x == name y) = false :=
        beq_eq_false_iff_ne.2 fun heq => hnames.1 (heq ▸ List.mem_map_of_mem hx)
      rw [hne]
      exact ih hnames.2 hx

/-- The columns of a table have distinct names. -/
lemma nodup_of_columnError? {all before columns : List ColumnDefinition}
    (h : columnError? all before columns = none) :
    (columns.map ColumnDefinition.name).Nodup ∧
      ∀ d ∈ before, d.name ∉ columns.map ColumnDefinition.name := by
  induction columns generalizing before with
  | nil => exact ⟨List.nodup_nil, fun _ _ => List.not_mem_nil⟩
  | cons c rest ih =>
    unfold columnError? at h
    split at h
    · cases h
    split at h
    · cases h
    split at h
    · cases h
    · next hclash =>
      obtain ⟨hrest, hbefore⟩ := ih h
      refine ⟨List.nodup_cons.2 ⟨hbefore c (by simp), hrest⟩, fun d hd hmem => ?_⟩
      rcases List.mem_cons.1 hmem with hsame | hmem
      · refine hclash (List.any_eq_true.2 ⟨d, hd, ?_⟩)
        rw [hsame]
        exact beq_self_eq_true _
      · exact hbefore d (List.mem_append_left _ hd) hmem

namespace Artifact

/-! ## Tables of cards -/

/-- The row that a table stores for a card. -/
def rowOf (table : StoredTable) (columns : List Column) (c : CorpusCard) : List Cell :=
  table.storedRow (encodeRow columns c.card c.pack)

/-- The row that is stored for a card, cell by cell. -/
lemma rowOf_eq_map {table : StoredTable} {columns : List Column}
    (hcolumns : table.columns = columns.map Column.definition) (c : CorpusCard) :
    rowOf table columns c =
      columns.map fun column => column.kind.affinity.apply (column.cellOf c.card c.pack) := by
  rw [rowOf, StoredTable.storedRow, encodeRow, hcolumns, List.zipWith_map, List.zipWith_self]
  rfl

/-- The rows of further cards join those that are there. -/
lemma rows_of_addRows {columns : List Column} {row : Nat} {t t' : StoredTable}
    {cards : List CorpusCard} (h : addRows columns row t cards = .ok t') :
    t'.columns = t.columns ∧ t'.rows.Perm (t.rows ++ cards.map (rowOf t columns)) ∧
      (t.keyKind ≠ .integer → t'.rows = t.rows ++ cards.map (rowOf t columns)) ∧
      (t.IsOrdered → t'.IsOrdered) := by
  induction cards generalizing row t with
  | nil =>
    obtain rfl := Except.ok.inj h
    simp
  | cons c rest ih =>
    unfold addRows at h
    dsimp only at h
    split at h
    · next u hinsert =>
      have hcolumns := StoredTable.columns_of_insert hinsert
      have hperm := StoredTable.rows_perm_of_insert hinsert
      obtain ⟨hexact, hordered⟩ := StoredTable.rows_of_insert hinsert
      have hkind : u.keyKind = t.keyKind := by simp only [StoredTable.keyKind, hcolumns]
      have hrow : rowOf u columns = rowOf t columns := by
        funext other
        simp only [rowOf, StoredTable.storedRow, hcolumns]
      obtain ⟨hcolumns', hperm', hexact', hordered'⟩ := ih h
      rw [hrow] at hperm' hexact'
      refine ⟨hcolumns'.trans hcolumns, ?_, fun hother => ?_, hordered' ∘ hordered⟩
      · refine (hperm'.trans (hperm.append_right _)).trans ?_
        exact List.perm_middle.symm
      · rw [hexact' (hkind ▸ hother), hexact hother, List.append_assoc]
        rfl
    · cases h
    · cases h
    · cases h

/-- **The rows of the table of some cards** are those of the cards. -/
theorem represents_of_tableOf {columns : List Column} {cards : List CorpusCard}
    {table : StoredTable} (h : tableOf columns cards = .ok table) :
    table.columns = columns.map Column.definition ∧ (columns.map Column.name).Nodup ∧
      table.Represents (fun c row => row = rowOf table columns c) cards := by
  unfold tableOf StoredTable.ofColumns at h
  cases herror : columnError? (columns.map Column.definition) []
    (columns.map Column.definition) with
  | some e => simp [herror, Except.mapError, bind, Except.bind] at h
  | none =>
    simp only [herror, Except.mapError, bind, Except.bind] at h
    obtain ⟨hcolumns, hperm, hexact, hordered⟩ := rows_of_addRows h
    have hnames := (nodup_of_columnError? herror).1
    rw [List.map_map] at hnames
    have hkind : table.keyKind = StoredTable.keyKind ⟨columns.map Column.definition, []⟩ := by
      simp only [StoredTable.keyKind, hcolumns]
    have hrow : rowOf ⟨columns.map Column.definition, []⟩ columns = rowOf table columns := by
      funext other
      simp only [rowOf, StoredTable.storedRow, hcolumns]
    rw [hrow, List.nil_append] at hperm hexact
    refine ⟨hcolumns, hnames, ⟨_, ?_, hperm, fun hother => hexact (hkind ▸ hother)⟩, hordered ?_⟩
    · rw [List.forall₂_map_right_iff]
      exact List.forall₂_same.2 fun _ _ => rfl
    · exact fun _ => ⟨fun _ hnone => absurd hnone List.not_mem_nil, List.Pairwise.nil⟩

/-! ## The artifact -/

/-- A table that is committed is what is found at the artifact. -/
lemma find_of_commit {t t' : FileTree} {artifact : Path} {table : StoredTable}
    (h : commit t artifact table = (t', .ok ())) :
    t'.find artifact = .ok (.file (.table table)) := by
  obtain ⟨-, staged, hstaged, hmoved⟩ := commit_eq_ok_iff.1 h
  exact FileTree.find_of_rename (FileTree.find_of_writeFile hstaged) hmoved

/-- **What is at the artifact** once it is written: the table of the cards. -/
theorem exists_table_of_write {t t' : FileTree} {artifact : Path} {columns : List Column}
    {cards : List CorpusCard} {rows : Nat}
    (h : write t artifact columns cards = (t', .ok rows)) :
    rows = cards.length ∧ ∃ table, tableOf columns cards = .ok table ∧
      t'.find artifact = .ok (.file (.table table)) := by
  obtain ⟨prepared, table, -, -, htable, hcommit, hrows⟩ := write_succeeds_iff.1 h
  exact ⟨hrows, table, htable, find_of_commit hcommit⟩

end Artifact

/-! ## Dates as texts -/

/-- A text without blanks has none around it. -/
lemma trimStoreBlanks_eq_self {cs : List Char} (h : ∀ c ∈ cs, isStoreBlank c = false) :
    trimStoreBlanks cs = cs := by
  have hdrop : ∀ cs : List Char, (∀ c ∈ cs, isStoreBlank c = false) →
      cs.dropWhile isStoreBlank = cs := by
    intro cs h
    cases cs with
    | nil => rfl
    | cons c rest => exact List.dropWhile_cons_of_neg (by simp [h c (List.mem_cons_self ..)])
  unfold trimStoreBlanks
  rw [hdrop cs h, hdrop cs.reverse fun c hc => h c (List.mem_reverse.1 hc), List.reverse_reverse]

/-- Digits in front of a hyphen do not spell a number. -/
lemma numberCell?_eq_none {s : String} {sign digits rest : List Char}
    (htext : s.toList = sign ++ digits ++ '-' :: rest)
    (hblank : ∀ c ∈ s.toList, isStoreBlank c = false)
    (hsign : sign = [] ∨ sign = ['-'] ∨ sign = ['+']) (hne : digits ≠ [])
    (hdigits : ∀ c ∈ digits, c.isDigit = true) : numberCell? s = none := by
  have hsplit : (splitSign (trimStoreBlanks s.toList)).2 = digits ++ '-' :: rest := by
    rw [trimStoreBlanks_eq_self hblank, htext]
    rcases hsign with rfl | rfl | rfl
    · obtain ⟨d, ds, rfl⟩ := List.exists_cons_of_ne_nil hne
      have hd := hdigits d (List.mem_cons_self ..)
      unfold splitSign
      split
      · next heq => exact absurd hd ((List.cons.inj heq).1 ▸ by decide)
      · next heq => exact absurd hd ((List.cons.inj heq).1 ▸ by decide)
      · rfl
    · rfl
    · rfl
  have hhyphen : ('-' :: rest).head?.any Char.isDigit = false := rfl
  obtain ⟨hwhole, hrest⟩ := Text.span_append hdigits hhyphen
  have hexponent : exponentOf? ('-' :: rest) = none := by simp [exponentOf?]
  simp [numberCell?, hsplit, hwhole, hrest, hne, hexponent]

namespace Date

/-- The year is written as digits, perhaps behind a sign. -/
lemma exists_yearText (year : Int) :
    ∃ sign digits, yearText year = sign ++ digits ∧
      (sign = [] ∨ sign = ['-'] ∨ sign = ['+']) ∧ digits ≠ [] ∧ ∀ c ∈ digits, c.isDigit = true := by
  obtain ⟨hne, hdigits⟩ := padded_spec 4 year.natAbs
  unfold yearText
  split
  · exact ⟨['-'], _, rfl, .inr (.inl rfl), hne, hdigits⟩
  split
  · exact ⟨['+'], _, rfl, .inr (.inr rfl), hne, hdigits⟩
  · exact ⟨[], _, rfl, .inl rfl, hne, hdigits⟩

/-- **A date is no number** for the store. -/
theorem numberCell?_iso (d : Date) : numberCell? d.iso = none := by
  obtain ⟨sign, digits, hyear, hsign, hne, hdigits⟩ := exists_yearText d.year
  have htext : d.iso.toList =
      sign ++ digits ++ '-' :: (padded 2 d.month ++ '-' :: padded 2 d.day) := by
    rw [iso, String.toList_ofList, isoText, hyear]
  have hdigit : ∀ c : Char, c.isDigit = true → isStoreBlank c = false := by
    intro c hc
    have hrange : 0x30 ≤ c.toNat := (Char.isDigit_iff_toNat.1 hc).1
    have hspace : c ≠ ' ' := by
      rintro rfl
      cases hc
    have hcontrol : ¬ c.toNat ≤ 0x0d := by omega
    simp [isStoreBlank, hspace, hcontrol]
  have hhyphen : isStoreBlank '-' = false := rfl
  refine numberCell?_eq_none htext (fun c hc => ?_) hsign hne hdigits
  rw [htext] at hc
  simp only [List.mem_append, List.mem_cons] at hc
  rcases hc with (hc | hc) | rfl | hc | rfl | hc
  · rcases hsign with rfl | rfl | rfl
    · exact absurd hc List.not_mem_nil
    · rw [List.mem_singleton.1 hc]
      rfl
    · rw [List.mem_singleton.1 hc]
      rfl
  · exact hdigit c (hdigits c hc)
  · exact hhyphen
  · exact hdigit c ((padded_spec 2 d.month).2 c hc)
  · exact hhyphen
  · exact hdigit c ((padded_spec 2 d.day).2 c hc)

end Date

/-! ## The cells of a row -/

/-- The cell of a text that may be missing. -/
def Cell.ofText? : Option String → Cell
  | none => .null
  | some s => .text s

/-- Whether the release date of a pack is a date, if it has one. -/
def Pack.IsDated (pack : Pack) : Prop :=
  ∀ s, pack.releaseDate = some s → ∃ d : Date, s = d.iso

/-- The texts of a pack are stored as they are. -/
lemma apply_ofText? {pack : Pack} (h : pack.IsDated) (d : Derived) :
    d.columnKind.affinity.apply (Cell.ofText? (pack.get? d)) = Cell.ofText? (pack.get? d) := by
  cases hentry : pack.get? d with
  | none => cases d <;> rfl
  | some s =>
    cases d with
    | releaseDate =>
      obtain ⟨date, rfl⟩ := h s hentry
      show Affinity.toNumeric (.text date.iso) = .text date.iso
      rw [Affinity.toNumeric, Date.numberCell?_iso]
      rfl
    | _ => rfl

namespace StoredTable

variable {table : StoredTable} {columns : List Column} {p : Profile} {cards : List Card}
  (hcolumns : table.columns = columns.map Column.definition)
  (hnames : (columns.map Column.name).Nodup) (c : CorpusCard)
include hcolumns hnames

/-- The cell of a stored row under the name of a column is what is stored for the card there. -/
lemma cellNamed?_rowOf {column : Column} (hcolumn : column ∈ columns) :
    table.cellNamed? (Artifact.rowOf table columns c) column.name =
      some (column.kind.affinity.apply (column.cellOf c.card c.pack)) := by
  rw [cellNamed?, Artifact.rowOf_eq_map hcolumns, hcolumns, List.map_map, List.zip_map',
    Function.comp_def]
  exact lookup_map_of_nodup hnames hcolumn

/-- **The cell of a field** is the encoded value of the field, as it is stored. -/
theorem cellNamed?_of_field {column : Column} (hcolumn : column ∈ columns)
    (hfield : column.source = .field) :
    table.cellNamed? (Artifact.rowOf table columns c) column.name =
      some (column.kind.affinity.apply (column.encode (c.card.get? column.name))) := by
  rw [cellNamed?_rowOf hcolumns hnames c hcolumn]
  simp only [Column.cellOf, hfield]

/-- **The cell of a derived column** is the text that the pack has for it. -/
theorem cellNamed?_of_derived (hinfer : inferSchema p cards = .ok columns) (hdated : c.pack.IsDated)
    {d : Derived} (hd : d ∈ p.derived) :
    table.cellNamed? (Artifact.rowOf table columns c) d.columnName =
      some (Cell.ofText? (c.pack.get? d)) := by
  obtain ⟨seen, -, hschema⟩ := inferSchema_eq_ok_iff.1 hinfer
  obtain ⟨ordinal, hcolumn⟩ : ∃ ordinal, Observations.derivedColumn d ordinal ∈ columns := by
    unfold Observations.schema at hschema
    split at hschema
    · cases hschema
    · obtain rfl := Except.ok.inj hschema
      obtain ⟨i, hi, rfl⟩ := List.mem_iff_getElem.1 hd
      exact ⟨_, List.mem_append_right _ (List.mem_mapIdx.2 ⟨i, hi, rfl⟩)⟩
  have hcell : (Observations.derivedColumn d ordinal).cellOf c.card c.pack =
      Cell.ofText? (c.pack.get? d) := by
    unfold Column.cellOf Observations.derivedColumn
    dsimp only
    cases c.pack.get? d <;> rfl
  have hfound := cellNamed?_rowOf hcolumns hnames c hcolumn
  rw [hcell] at hfound
  exact hfound.trans (congrArg some (apply_ofText? hdated d))

end StoredTable

end CardTable
