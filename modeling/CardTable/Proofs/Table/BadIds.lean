import CardTable.Proofs.Table.Acceptance
import CardTable.Proofs.Table.CardRows

set_option autoImplicit false

/-!
# The first bad id

An id can fail to name its card in two ways: it is not there, or an earlier card has it. The first
is found before a row is added, and the second when the store refuses the row, but both are found at
the first card that they concern: a corpus that has nothing else to be refused for is written, or
the first bad id of all is reported, with the way in which it is bad.

## Main definitions

* `CardTable.IsBadId` — whether the id of a card cannot be taken.
* `CardTable.IsFirstBadId` — whether it is the first one of a corpus.

## Main results

* `CardTable.Artifact.exists_addRows_of_good` — cards without a bad id make rows.
* `CardTable.Artifact.addRows_of_first` — the rows stop at the first bad id.
* `CardTable.Artifact.write_of_badIds` — what is reported for a corpus.
-/

namespace CardTable

/-! ## Bad ids -/

/-- Whether the id of the card number `i` cannot be taken: it is not there, or it is the id of a
card in front of it. -/
def IsBadId (columns : List Column) (cards : List CorpusCard) (i : Nat) : Prop :=
  ∃ card, cards[i]? = some card ∧
    ((idCell columns card).isNull = true ∨
      ∃ j < i, ∃ other, cards[j]? = some other ∧
        StoredTable.sameKey (idCell columns other) (idCell columns card) = true)

/-- Whether the id of the card number `i` is the first that cannot be taken. -/
structure IsFirstBadId (columns : List Column) (cards : List CorpusCard) (i : Nat) : Prop where
  /-- It cannot be taken. -/
  bad : IsBadId columns cards i
  /-- The ids in front of it can. -/
  first : ∀ j < i, ¬ IsBadId columns cards j

/-- Whether an id can be taken does not depend on the cards behind it. -/
lemma isBadId_append {columns : List Column} {front behind : List CorpusCard} {i : Nat}
    (h : i < front.length) :
    IsBadId columns (front ++ behind) i ↔ IsBadId columns front i := by
  have hget : ∀ j ≤ i, (front ++ behind)[j]? = front[j]? := fun j hj =>
    List.getElem?_append_left (by omega)
  unfold IsBadId
  rw [hget i (Nat.le_refl i)]
  refine exists_congr fun card => and_congr_right fun _ => or_congr_right ?_
  refine exists_congr fun j => and_congr_right fun hj => ?_
  rw [hget j (Nat.le_of_lt hj)]

/-- Where no id is bad, all are there. -/
lemma isNull_eq_false_of_good {columns : List Column} {cards : List CorpusCard}
    (hgood : ∀ i, ¬ IsBadId columns cards i) :
    ∀ card ∈ cards, (idCell columns card).isNull = false := by
  intro card hcard
  obtain ⟨i, hi⟩ := List.mem_iff_getElem?.1 hcard
  exact Bool.eq_false_iff.2 fun hnull => hgood i ⟨card, hi, .inl hnull⟩

namespace StoredTable

/-- A row without a key is refused as such. -/
lemma insert_of_isNull {t : StoredTable} {row : List Cell} (h : (keyOf row).isNull = true) :
    t.insert row = .error .missingKey := by
  rw [insert, if_pos h]

/-- A row whose key is there already is refused as such, unless the key is not one of the column. -/
lemma insert_of_used {t : StoredTable} {row : List Cell} (hpresent : (keyOf row).isNull = false)
    (hwhole : t.keyKind = .integer → ∃ n, keyOf (t.storedRow row) = .integer n)
    (hused : ∃ other ∈ t.rows, sameKey (keyOf other) (keyOf (t.storedRow row)) = true) :
    t.insert row = .error .duplicateKey := by
  have hany := List.any_eq_true.2 hused
  unfold insert
  rw [if_neg (by simp [hpresent])]
  dsimp only
  split
  · next n _ hkey =>
    rw [hkey] at hany
    rw [if_pos hany]
  · next hkind hkey =>
    obtain ⟨n, hn⟩ := hwhole hkind
    exact absurd hn (hkey n)
  · rw [if_pos hany]

end StoredTable

namespace Artifact

/-! ## Rows one after the other -/

/-- The rows of cards are added to those of the cards in front of them. -/
lemma addRows_append (columns : List Column) (row : Nat) (t : StoredTable)
    (front behind : List CorpusCard) :
    addRows columns row t (front ++ behind) =
      (addRows columns row t front).bind fun u =>
        addRows columns (row + front.length) u behind := by
  induction front generalizing row t with
  | nil => rfl
  | cons c rest ih =>
    rw [List.cons_append, addRows, addRows]
    split
    · rw [ih, List.length_cons, Nat.add_right_comm, Nat.add_assoc]
    · rfl
    · rfl
    · rfl

section Corpus

variable {p : Profile} {cards : List CorpusCard} {c : Column} {rest : List Column}

/-- **Cards without a bad id make rows**, as far as they are taken from a corpus whose ids do not
overflow. -/
theorem exists_addRows_of_good
    (hinfer : inferSchema p (cards.map CorpusCard.card) = .ok (c :: rest))
    (hfield : c.source = .field) (hkind : c.kind ≠ .date)
    (hsmall : ∀ card ∈ cards, c.overflows card.card = false) {front : List CorpusCard}
    (hfront : ∀ card ∈ front, card ∈ cards) (hgood : ∀ i, ¬ IsBadId (c :: rest) front i) :
    ∃ u, addRows (c :: rest) 0 ⟨(c :: rest).map Column.definition, []⟩ front = .ok u := by
  have hthere := isNull_eq_false_of_good hgood
  refine exists_addRows_iff.2 ⟨fun card hcard => ?_, List.pairwise_iff_getElem.2 ?_⟩
  · exact (accepts_encodeRow_iff hinfer hfield (hfront card hcard) (hthere card hcard)).2
      (hsmall card (hfront card hcard))
  · intro i j hi hj hlt
    have ha := List.getElem_mem hi
    have hb := List.getElem_mem hj
    rw [keyOf_storedRow_encodeRow, keyOf_storedRow_encodeRow]
    refine (sameKey_apply hkind ?_ (hthere _ ha) ?_ (hthere _ hb)).trans ?_
    · exact fits_idCell hinfer hfield (hfront _ ha) (hsmall _ (hfront _ ha))
    · exact fits_idCell hinfer hfield (hfront _ hb) (hsmall _ (hfront _ hb))
    · refine Bool.eq_false_iff.2 fun hsame => hgood j ⟨front[j], List.getElem?_eq_getElem hj, ?_⟩
      exact .inr ⟨i, hlt, front[i], List.getElem?_eq_getElem hi, hsame⟩

/-- A card whose id is that of a card in front of it is refused for that. -/
lemma insert_of_bad
    (hinfer : inferSchema p (cards.map CorpusCard.card) = .ok (c :: rest))
    (hfield : c.source = .field) (hkind : c.kind ≠ .date)
    (hsmall : ∀ card ∈ cards, c.overflows card.card = false) {front : List CorpusCard}
    (hfront : ∀ card ∈ front, card ∈ cards)
    (hthere : ∀ card ∈ front, (idCell (c :: rest) card).isNull = false) {u : StoredTable}
    (hu : addRows (c :: rest) 0 ⟨(c :: rest).map Column.definition, []⟩ front = .ok u)
    {card other : CorpusCard} (hcard : card ∈ cards)
      (hid : (idCell (c :: rest) card).isNull = false)
    (hother : other ∈ front)
    (hsame : StoredTable.sameKey (idCell (c :: rest) other) (idCell (c :: rest) card) = true) :
    u.insert (encodeRow (c :: rest) card.card card.pack) = .error .duplicateKey := by
  obtain ⟨hcolumns, hrows, -, -⟩ := rows_of_addRows hu
  have haccepts := (accepts_encodeRow_iff hinfer hfield hcard hid).2 (hsmall card hcard)
  have hstored : u.storedRow = StoredTable.storedRow ⟨(c :: rest).map Column.definition, []⟩ := by
    funext row
    simp only [StoredTable.storedRow, hcolumns]
  have hkeyKind : u.keyKind = StoredTable.keyKind ⟨(c :: rest).map Column.definition, []⟩ := by
    simp only [StoredTable.keyKind, hcolumns]
  refine StoredTable.insert_of_used haccepts.present (fun hwhole => ?_) ?_
  · rw [hstored]
    exact haccepts.whole (hkeyKind ▸ hwhole)
  · refine ⟨_, hrows.mem_iff.2 (List.mem_append_right _ (List.mem_map_of_mem hother)), ?_⟩
    rw [hstored, rowOf, keyOf_storedRow_encodeRow, keyOf_storedRow_encodeRow]
    refine (sameKey_apply hkind ?_ (hthere _ hother) ?_ hid).trans hsame
    · exact fits_idCell hinfer hfield (hfront _ hother) (hsmall _ (hfront _ hother))
    · exact fits_idCell hinfer hfield hcard (hsmall card hcard)

/-- **The rows stop at the first bad id.**

**Proof sketch.** The cards in front of the first bad id hold no bad id themselves, so that their
rows are added (`exists_addRows_of_good`). The next card is refused, for a missing id if it has
none, and otherwise for having the id of one of those in front. -/
theorem addRows_of_first
    (hinfer : inferSchema p (cards.map CorpusCard.card) = .ok (c :: rest))
    (hfield : c.source = .field) (hkind : c.kind ≠ .date)
    (hsmall : ∀ card ∈ cards, c.overflows card.card = false) {i : Nat}
    (hfirst : IsFirstBadId (c :: rest) cards i) {card : CorpusCard}
    (hcard : cards[i]? = some card) :
    addRows (c :: rest) 0 ⟨(c :: rest).map Column.definition, []⟩ cards =
      .error (if (idCell (c :: rest) card).isNull then .missingId i
        else .duplicateId (idCell (c :: rest) card).display) := by
  obtain ⟨hi, hget⟩ := List.getElem?_eq_some_iff.1 hcard
  -- the cards in front of the bad id make rows
  have hsplit : cards = cards.take i ++ card :: cards.drop (i + 1) := by
    rw [← hget, ← List.drop_eq_getElem_cons hi, List.take_append_drop]
  have hlength : (cards.take i).length = i := List.length_take_of_le (Nat.le_of_lt hi)
  have hfront : ∀ other ∈ cards.take i, other ∈ cards := fun _ => List.mem_of_mem_take
  have hgood : ∀ j, ¬ IsBadId (c :: rest) (cards.take i) j := by
    intro j hbad
    obtain ⟨other, hother, -⟩ := id hbad
    have hj : j < (cards.take i).length := (List.getElem?_eq_some_iff.1 hother).1
    refine hfirst.first j (hlength ▸ hj) ?_
    rw [hsplit]
    exact (isBadId_append hj).2 hbad
  obtain ⟨u, hu⟩ := exists_addRows_of_good hinfer hfield hkind hsmall hfront hgood
  have hstop : addRows (c :: rest) 0 ⟨(c :: rest).map Column.definition, []⟩ cards =
      addRows (c :: rest) i u (card :: cards.drop (i + 1)) := by
    conv_lhs => rw [hsplit]
    rw [addRows_append, hu, hlength, Nat.zero_add]
    rfl
  rw [hstop, addRows]
  by_cases hnull : (idCell (c :: rest) card).isNull = true
  · rw [if_pos hnull, StoredTable.insert_of_isNull hnull]
  · -- an id that is there is bad for a card in front of it
    have hid : (idCell (c :: rest) card).isNull = false := by simpa using hnull
    obtain ⟨_, hcard', hnull' | ⟨j, hj, other, hother, hsame⟩⟩ := hfirst.bad
    · obtain rfl := Option.some.inj (hcard.symm.trans hcard')
      exact absurd hnull' hnull
    · obtain rfl := Option.some.inj (hcard.symm.trans hcard')
      have hmem : other ∈ cards.take i :=
        List.mem_of_getElem? ((List.getElem?_take_of_lt hj).trans hother)
      rw [if_neg hnull, insert_of_bad hinfer hfield hkind hsmall hfront
        (isNull_eq_false_of_good hgood) hu (List.mem_of_getElem? hcard) hid hmem hsame]
      rfl

end Corpus

/-- **What is reported for a corpus** that is not refused for its columns, at a path where a table
can be put: the first id that is missing, with its row, or that an earlier card has, with its text,
whichever of them is first. Without such an id the corpus is written.

**Proof sketch.** Where a table can be put and its columns can be made, what is answered is what the
rows come to. These stop at the first bad id (`addRows_of_first`), and without one they are all
added (`exists_addRows_of_good`). -/
theorem write_of_badIds {t : FileTree} {artifact : Path} {p : Profile} {cards : List CorpusCard}
    {columns : List Column} (hwritable : IsWritable t artifact)
    (hinfer : inferSchema p (cards.map CorpusCard.card) = .ok columns)
    (hcount : columns.length ≤ columnLimit) (hnul : ∀ c ∈ columns, '\x00' ∉ c.name.toList)
    (hnames : columns.Pairwise fun c d => sameName c.name d.name = false)
    (hsmall : ∀ c ∈ columns.head?, ∀ card ∈ cards, c.overflows card.card = false) :
    (∀ i card, IsFirstBadId columns cards i → cards[i]? = some card →
      ((idCell columns card).isNull = true →
          (write t artifact columns cards).2 = .error (.missingId i)) ∧
        ((idCell columns card).isNull = false →
          (write t artifact columns cards).2 =
            .error (.duplicateId (idCell columns card).display))) ∧
      ((∀ i, ¬ IsBadId columns cards i) →
        (write t artifact columns cards).2 = .ok cards.length) := by
  obtain ⟨c, rest, rfl, hfield, hkind⟩ := exists_cons_of_inferSchema hinfer
  replace hsmall : ∀ card ∈ cards, c.overflows card.card = false := hsmall c rfl
  have htable : tableOf (c :: rest) cards =
      addRows (c :: rest) 0 ⟨(c :: rest).map Column.definition, []⟩ cards := by
    have hnone : columnError? ((c :: rest).map Column.definition) []
        ((c :: rest).map Column.definition) = none := by
      refine (columnError?_eq_none_iff (by simpa using hcount)).2 ⟨?_, ?_, ?_⟩
      · exact List.forall_mem_map.2 hnul
      · exact fun _ _ _ hnone => absurd hnone List.not_mem_nil
      · exact List.pairwise_map.2 hnames
    unfold tableOf StoredTable.ofColumns
    rw [hnone]
    rfl
  rw [write_of_isWritable hwritable, htable]
  refine ⟨fun i card hfirst hcard => ?_, fun hgood => ?_⟩
  · rw [addRows_of_first hinfer hfield hkind hsmall hfirst hcard]
    refine ⟨fun hnull => ?_, fun hid => ?_⟩
    · rw [if_pos hnull]
    · rw [if_neg (by simp [hid])]
  · obtain ⟨u, hu⟩ :=
      exists_addRows_of_good hinfer hfield hkind hsmall (fun _ => id) hgood
    rw [hu]

end Artifact

/-- A 64-bit word holds the number one. -/
lemma wide_one : Wide 1 := by decide

/-- Cards whose ids are the number one, its digit, and none. -/
def oneTwiceCorpus : List CorpusCard :=
  [⟨[("id", .num (.whole 1 wide_one))], {}⟩, ⟨[("id", .str "1")], {}⟩, ⟨[("hp", .str "60")], {}⟩]

/-- The columns of these cards: the ids are of two sorts, so that they are kept as texts. -/
def oneTwiceColumns : List Column :=
  [⟨"id", .text, 0, .field, true⟩, ⟨"hp", .text, 1, .field, false⟩,
    ⟨"packName", .text, 2, .derived .packName, false⟩,
    ⟨"packSeries", .text, 3, .derived .packSeries, false⟩,
    ⟨"releaseDate", .date, 4, .derived .releaseDate, false⟩,
    ⟨"imageUrl", .text, 5, .derived .imageUrl, false⟩]

/-- The second id of this corpus is the first once more, and this is reported rather than the third,
which is missing. -/
theorem write_oneTwiceCorpus :
    inferSchema .flat (oneTwiceCorpus.map CorpusCard.card) = .ok oneTwiceColumns ∧
      Artifact.IsWritable ⟨[], []⟩ ⟨"cards.sqlite"⟩ ∧
      IsFirstBadId oneTwiceColumns oneTwiceCorpus 1 ∧
      (Artifact.write ⟨[], []⟩ ⟨"cards.sqlite"⟩ oneTwiceColumns oneTwiceCorpus).2 =
        .error (.duplicateId "1") := by
  have hinfer : inferSchema .flat (oneTwiceCorpus.map CorpusCard.card) = .ok oneTwiceColumns := rfl
  have hfirst : IsFirstBadId oneTwiceColumns oneTwiceCorpus 1 := by
    refine ⟨⟨_, rfl, .inr ⟨0, by decide, _, rfl, rfl⟩⟩, fun j hj hbad => ?_⟩
    obtain rfl : j = 0 := by omega
    obtain ⟨card, hcard, hnull | ⟨k, hk, -⟩⟩ := hbad
    · obtain rfl := Option.some.inj hcard
      cases hnull
    · exact absurd hk (Nat.not_lt_zero k)
  have hreported := (Artifact.write_of_badIds isWritable_emptyTree hinfer (by decide) (by decide)
    (by decide) (by decide)).1 1 _ hfirst rfl
  exact ⟨hinfer, isWritable_emptyTree, hfirst, hreported.2 rfl⟩

end CardTable
