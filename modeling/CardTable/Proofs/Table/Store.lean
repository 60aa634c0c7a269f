import CardTable.Proofs.Number.WholeDoubles
import CardTable.Proofs.Table.Conformance
import CardTable.Table.Stored

set_option autoImplicit false

/-!
# What the store takes

The store refuses a table for the names of its columns and a row for its key, and for nothing else.
The conversions that it applies to a cell leave the cells alone that fit their column, up to the
sign of a zero.

## Main definitions

* `CardTable.StoredTable.Accepts` — what a row has to be like for a table to take it.

## Main results

* `CardTable.columnError?_eq_none_iff` — which columns make a table.
* `CardTable.StoredTable.columns_of_insert`, `CardTable.StoredTable.rows_perm_of_insert` — the
  table afterwards.
* `CardTable.sameKey_apply` — keys that fit their column are told apart as before when they are
  stored.
-/

namespace CardTable

/-! ## Columns -/

/-- Columns make a table if no name ends early and no two names differ in case only, as long as
there are not too many of them. -/
theorem columnError?_eq_none_iff {all before columns : List ColumnDefinition}
    (hcount : before.length + columns.length ≤ columnLimit) :
    columnError? all before columns = none ↔
      (∀ c ∈ columns, '\x00' ∉ c.name.toList) ∧
        (∀ c ∈ columns, ∀ d ∈ before, sameName d.name c.name = false) ∧
        columns.Pairwise fun c d => sameName c.name d.name = false := by
  induction columns generalizing before with
  | nil => simp [columnError?]
  | cons c rest ih =>
    have hroom : ¬ columnLimit ≤ before.length := by
      rw [List.length_cons] at hcount
      omega
    have hrest : (before ++ [c]).length + rest.length ≤ columnLimit := by
      rw [List.length_append, List.length_singleton]
      rw [List.length_cons] at hcount
      omega
    unfold columnError?
    by_cases hnul : '\x00' ∈ c.name.toList
    · simp [hnul]
    · rw [if_neg hnul, if_neg hroom]
      by_cases hclash : before.any (fun d => sameName d.name c.name) = true
      · rw [if_pos hclash]
        obtain ⟨d, hd, hsame⟩ := List.any_eq_true.1 hclash
        refine iff_of_false (Option.some_ne_none _) fun h => ?_
        have hdiffer := h.2.1 c (List.mem_cons_self ..) d hd
        exact absurd hsame (by simp [hdiffer])
      · rw [if_neg hclash, ih hrest]
        have hdiffer : ∀ d ∈ before, sameName d.name c.name = false := by
          simpa using hclash
        simp only [List.mem_cons, forall_eq_or_imp, List.pairwise_cons, List.mem_append,
          List.not_mem_nil, or_false]
        constructor
        · rintro ⟨hnuls, hbefore, hpairs⟩
          exact ⟨⟨hnul, hnuls⟩, ⟨hdiffer, fun e he d hd => hbefore e he d (.inl hd)⟩,
            fun e he => hbefore e he c (.inr rfl), hpairs⟩
        · rintro ⟨⟨-, hnuls⟩, ⟨-, hbefore⟩, hfirst, hpairs⟩
          refine ⟨hnuls, fun e he d hd => ?_, hpairs⟩
          rcases hd with hd | rfl
          · exact hbefore e he d hd
          · exact hfirst e he

/-! ## Rows -/

namespace StoredTable

/-- What a row has to be like for a table to take it: it has a key, a key that is declared as a
whole number is one, and no row has the key yet. -/
structure Accepts (t : StoredTable) (row : List Cell) : Prop where
  /-- There is a key. -/
  present : (keyOf row).isNull = false
  /-- A key that orders the rows is a whole number. -/
  whole : t.keyKind = .integer → ∃ n, keyOf (t.storedRow row) = .integer n
  /-- The key is new. -/
  fresh : ∀ other ∈ t.rows, sameKey (keyOf other) (keyOf (t.storedRow row)) = false

/-- A row that is put in its place is one more row. -/
lemma insertOrdered_perm (row : List Cell) (rows : List (List Cell)) :
    (insertOrdered row rows).Perm (row :: rows) := by
  induction rows with
  | nil => exact List.Perm.refl _
  | cons other rest ih =>
    unfold insertOrdered
    split
    · exact List.Perm.refl _
    · exact (ih.cons other).trans (List.Perm.swap row other rest)

/-- **What an insertion does**: the row that is stored joins the others, or the row is refused. -/
theorem insert_cases (t : StoredTable) (row : List Cell) :
    (t.Accepts row ∧ ∃ t', t.insert row = .ok t' ∧ t'.columns = t.columns ∧
        t'.rows.Perm (t.storedRow row :: t.rows)) ∨
      (¬ t.Accepts row ∧ ∃ e, t.insert row = .error e) := by
  unfold insert
  split
  · next hnull =>
    exact .inr ⟨fun h => absurd h.present (by simp [hnull]), _, rfl⟩
  · next hpresent =>
    have hpresent : (keyOf row).isNull = false := by simpa using hpresent
    dsimp only
    split
    · next n hkind hkey =>
      split
      · next hused =>
        refine .inr ⟨fun h => ?_, _, rfl⟩
        obtain ⟨other, hother, hsame⟩ := List.any_eq_true.1 hused
        have hfresh := h.fresh other hother
        exact absurd hsame (by simp [← hkey, hfresh])
      · next hnew =>
        refine .inl ⟨⟨hpresent, fun _ => ⟨n, hkey⟩, ?_⟩, _, rfl, rfl, insertOrdered_perm ..⟩
        simpa [hkey] using hnew
    · next hkind hkey =>
      refine .inr ⟨fun h => ?_, _, rfl⟩
      obtain ⟨n, hn⟩ := h.whole hkind
      exact hkey n hn
    · next hkind _ =>
      split
      · next hused =>
        refine .inr ⟨fun h => ?_, _, rfl⟩
        obtain ⟨other, hother, hsame⟩ := List.any_eq_true.1 hused
        exact absurd hsame (by simp [h.fresh other hother])
      · next hnew =>
        refine .inl ⟨⟨hpresent, fun h => absurd h hkind, by simpa using hnew⟩, _, rfl, rfl, ?_⟩
        exact List.perm_append_singleton ..

/-- A row that is taken leaves the columns alone. -/
theorem columns_of_insert {t t' : StoredTable} {row : List Cell} (h : t.insert row = .ok t') :
    t'.columns = t.columns := by
  rcases t.insert_cases row with ⟨-, u, hu, hcolumns, -⟩ | ⟨-, e, he⟩
  · obtain rfl := Except.ok.inj (hu.symm.trans h)
    exact hcolumns
  · cases he.symm.trans h

/-- A row that is taken is one more row. -/
theorem rows_perm_of_insert {t t' : StoredTable} {row : List Cell} (h : t.insert row = .ok t') :
    t'.rows.Perm (t.storedRow row :: t.rows) := by
  rcases t.insert_cases row with ⟨-, u, hu, -, hrows⟩ | ⟨-, e, he⟩
  · obtain rfl := Except.ok.inj (hu.symm.trans h)
    exact hrows
  · cases he.symm.trans h

/-- After a row was taken, the others are accepted as before unless they have its key. -/
lemma accepts_insert_iff {t t' : StoredTable} {row other : List Cell}
    (h : t.insert row = .ok t') :
    t'.Accepts other ↔ t.Accepts other ∧
      sameKey (keyOf (t.storedRow row)) (keyOf (t.storedRow other)) = false := by
  have hcolumns := columns_of_insert h
  have hkind : t'.keyKind = t.keyKind := by simp only [keyKind, hcolumns]
  have hstored : t'.storedRow other = t.storedRow other := by simp only [storedRow, hcolumns]
  have hrows : ∀ r, r ∈ t'.rows ↔ r = t.storedRow row ∨ r ∈ t.rows := by
    intro r
    rw [(rows_perm_of_insert h).mem_iff, List.mem_cons]
  constructor
  · intro ha
    refine ⟨⟨ha.present, fun hk => ?_, fun r hr => ?_⟩, ?_⟩
    · exact hstored ▸ ha.whole (hkind ▸ hk)
    · exact hstored ▸ ha.fresh r ((hrows r).2 (.inr hr))
    · exact hstored ▸ ha.fresh _ ((hrows _).2 (.inl rfl))
  · rintro ⟨ha, hdiffer⟩
    refine ⟨ha.present, fun hk => ?_, fun r hr => ?_⟩
    · exact hstored ▸ ha.whole (hkind ▸ hk)
    · rw [hstored]
      rcases (hrows r).1 hr with rfl | hold
      · exact hdiffer
      · exact ha.fresh r hold

/-- The key that is stored is the key, converted as its column asks for. -/
lemma keyOf_storedRow {t : StoredTable} {c : ColumnDefinition} {rest : List ColumnDefinition}
    (h : t.columns = c :: rest) (cell : Cell) (cells : List Cell) :
    keyOf (t.storedRow (cell :: cells)) = c.kind.affinity.apply cell := by
  simp only [storedRow, h, List.zipWith_cons_cons, keyOf, List.headD_cons]

end StoredTable

/-! ## Keys that fit -/

/-- A double in a column of doubles is stored as it is, up to the sign of zero. -/
lemma exists_apply_real (x : Double) :
    ∃ y, Affinity.real.apply (.real x) = .real y ∧ y.place = x.place ∧
      (y.negative = x.negative ∨ x.place = 0) := by
  have hsame : ∃ y, Cell.real x = .real y ∧ y.place = x.place ∧
      (y.negative = x.negative ∨ x.place = 0) := ⟨x, rfl, rfl, .inl rfl⟩
  simp only [Affinity.apply, Affinity.toNumeric, wholeCell]
  cases hwhole : x.toInt? with
  | none => exact hsame
  | some n =>
    obtain ⟨y, hy, hplace⟩ := Double.exists_ofInt?_of_toInt? hwhole
    by_cases hrange : -9223372036854775808 < n ∧ n < 9223372036854775808
    · exact ⟨y, by simp only [if_pos hrange, hy, Option.getD_some], hplace⟩
    · simpa only [if_neg hrange] using hsame

/-- Doubles that differ at most in the sign of zero are equal to the same doubles. -/
lemma Double.numEq_congr {x x' y y' : Double} (hx : x'.place = x.place)
    (hxsign : x'.negative = x.negative ∨ x.place = 0) (hy : y'.place = y.place)
    (hysign : y'.negative = y.negative ∨ y.place = 0) : x'.numEq y' = x.numEq y := by
  simp only [numEq, isZero, hx, hy]
  by_cases hplace : x.place = y.place
  · by_cases hzero : y.place = 0
    · simp [hplace, hzero]
    · have hxne : x.place ≠ 0 := hplace ▸ hzero
      rw [hxsign.resolve_right hxne, hysign.resolve_right hzero]
  · have hdiffer : (x.place == y.place) = false := by simpa using hplace
    simp [hdiffer]

/-- **Keys that fit their column** are told apart as before when they are stored. -/
theorem sameKey_apply {kind : ColumnKind} {a b : Cell} (hkind : kind ≠ .date)
    (ha : a.fits kind = true) (hanull : a.isNull = false) (hb : b.fits kind = true)
    (hbnull : b.isNull = false) :
    StoredTable.sameKey (kind.affinity.apply a) (kind.affinity.apply b) =
      StoredTable.sameKey a b := by
  cases kind with
  | date => exact absurd rfl hkind
  | integer =>
    cases a <;> simp [Cell.fits, Cell.isNull] at ha hanull
    cases b <;> simp [Cell.fits, Cell.isNull] at hb hbnull
    rfl
  | text =>
    cases a <;> simp [Cell.fits, Cell.isNull] at ha hanull
    cases b <;> simp [Cell.fits, Cell.isNull] at hb hbnull
    rfl
  | real =>
    cases a <;> simp [Cell.fits, Cell.isNull] at ha hanull
    cases b <;> simp [Cell.fits, Cell.isNull] at hb hbnull
    next x y =>
    obtain ⟨x', hx', hxplace, hxsign⟩ := exists_apply_real x
    obtain ⟨y', hy', hyplace, hysign⟩ := exists_apply_real y
    show StoredTable.sameKey (Affinity.real.apply _) (Affinity.real.apply _) = _
    rw [hx', hy']
    exact Double.numEq_congr hxplace hxsign hyplace hysign

end CardTable
