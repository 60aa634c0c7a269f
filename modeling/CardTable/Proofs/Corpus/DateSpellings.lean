import CardTable.Proofs.Corpus.DateNumerals

set_option autoImplicit false

/-!
# How days are spelled

Besides the regular texts of days, which are their ISO form and the texts of the layouts in four and
two digits, other texts are read as days too: numbers may have fewer digits, white space in front,
and the year a sign. A text is read as a day exactly if it spells the day in one of the layouts,
where each number is as long as it can be, and it is regular exactly if its numbers are written in
full.

## Main definitions

* `CardTable.Date.Layout.Spelling` — how a text spells a day in a layout.
* `CardTable.Date.Layout.Spelling.IsFull` — whether the numbers are written in full.
* `CardTable.Date.IsRegular` — the regular texts of a day.

## Main results

* `CardTable.Date.Layout.read?_eq_some_iff` — the texts that a layout reads.
* `CardTable.Date.Layout.Spelling.isRegular_iff` — the regular texts among them.
* `CardTable.Date.read?_eq_some_iff_spelling` — the texts that are read as a day.
-/

namespace CardTable.Date

open CardTable.Text (digitsValue)

/-! ## Spellings of a day -/

/-- The texts of year, month and day in the order of a layout, with its hyphens. -/
def Layout.join (layout : Layout) (year month day : List Char) : List Char :=
  match layout with
  | .yearFirst => year ++ '-' :: (month ++ '-' :: day)
  | .compact => year ++ (month ++ day)
  | .dayFirst => day ++ '-' :: (month ++ '-' :: year)

/-- How a text spells a day in a layout. -/
@[ext] structure Layout.Spelling (layout : Layout) (cs : List Char) (d : Date) where
  /-- The year. -/
  year : Numeral
  /-- The month. -/
  month : Numeral
  /-- The day of the month. -/
  day : Numeral
  /-- The text is made of the three. -/
  eq_join : cs = layout.join year.text month.text day.text
  /-- The year is that of the day. -/
  isYear : year.IsYear d.year
  /-- The month is that of the day. -/
  isMonth : month.IsTwo d.month
  /-- The day of the month is that of the day. -/
  isDay : day.IsTwo d.day
  /-- Without a hyphen behind it, a number is as long as it can be. -/
  ends : layout = .compact →
    year.EndsBefore 4 (month.text ++ day.text) ∧ month.EndsBefore 2 day.text

section Spellings

variable {layout : Layout} {cs : List Char} {d other : Date}

/-- The three numbers of a day make this day. -/
lemma of?_eq_some_iff {year : Int} {month day : Nat} :
    of? year month day = some d ↔ year = d.year ∧ month = d.month ∧ day = d.day := by
  constructor
  · intro h
    obtain ⟨_, hsome⟩ := Option.dite_none_right_eq_some.1 h
    obtain rfl := Option.some.inj hsome
    exact ⟨rfl, rfl, rfl⟩
  · rintro ⟨rfl, rfl, rfl⟩
    exact of?_self d

/-- What stands behind a hyphen. -/
lemma behindHyphen?_eq_some_iff {rest : List Char} :
    behindHyphen? cs = some rest ↔ cs = '-' :: rest := by
  constructor
  · intro h
    unfold behindHyphen? at h
    split at h
    · rw [Option.some.inj h]
    · cases h
  · rintro rfl
    rfl

/-- **The texts that a layout reads** as a day are those that spell the day in it.

**Proof sketch.** Each layout reads three numerals in a row, in its own order and with hyphens
between them or not, and each of the readers says exactly which numerals it takes and what may stand
behind them (`readYear?_eq_some_iff`, `readTwo?_eq_some_iff`). A hyphen ends any numeral, so that
only the compact layout asks for more. -/
theorem Layout.read?_eq_some_iff : layout.read? cs = some d ↔ Nonempty (layout.Spelling cs d) := by
  constructor
  · intro h
    cases layout with
    | yearFirst =>
      simp only [Layout.read?, Option.bind_eq_bind, Option.bind_eq_some_iff, Prod.exists,
        readYear?_eq_some_iff, readTwo?_eq_some_iff, behindHyphen?_eq_some_iff,
        Option.ite_none_right_eq_some, of?_eq_some_iff] at h
      obtain ⟨_, _, ⟨year, rfl, hyear, -⟩, _, rfl, _, _, ⟨month, rfl, hmonth, -⟩, _, rfl, _, _,
        ⟨day, rfl, hday, -⟩, rfl, rfl, rfl, rfl⟩ := h
      exact ⟨⟨year, month, day, by simp [join], hyear, hmonth, hday, by simp⟩⟩
    | compact =>
      simp only [Layout.read?, Option.bind_eq_bind, Option.bind_eq_some_iff, Prod.exists,
        readYear?_eq_some_iff, readTwo?_eq_some_iff,
        Option.ite_none_right_eq_some, of?_eq_some_iff] at h
      obtain ⟨_, _, ⟨year, rfl, hyear, hends⟩, _, _, ⟨month, rfl, hmonth, hends'⟩, _, _,
        ⟨day, rfl, hday, -⟩, rfl, rfl, rfl, rfl⟩ := h
      rw [List.append_nil] at hends hends'
      exact ⟨⟨year, month, day, by simp [join], hyear, hmonth, hday, fun _ => ⟨hends, hends'⟩⟩⟩
    | dayFirst =>
      simp only [Layout.read?, Option.bind_eq_bind, Option.bind_eq_some_iff, Prod.exists,
        readYear?_eq_some_iff, readTwo?_eq_some_iff, behindHyphen?_eq_some_iff,
        Option.ite_none_right_eq_some, of?_eq_some_iff] at h
      obtain ⟨_, _, ⟨day, rfl, hday, -⟩, _, rfl, _, _, ⟨month, rfl, hmonth, -⟩, _, rfl, _, _,
        ⟨year, rfl, hyear, -⟩, rfl, rfl, rfl, rfl⟩ := h
      exact ⟨⟨year, month, day, by simp [join], hyear, hmonth, hday, by simp⟩⟩
  · rintro ⟨year, month, day, rfl, hyear, hmonth, hday, hends⟩
    have hyears : ∀ rest, year.EndsBefore 4 rest →
        readYear? (year.text ++ rest) = some (d.year, rest) :=
      fun _ hend => readYear?_eq_some_iff.2 ⟨year, rfl, hyear, hend⟩
    have hmonths : ∀ rest, month.EndsBefore 2 rest →
        readTwo? (month.text ++ rest) = some (d.month, rest) :=
      fun _ hend => readTwo?_eq_some_iff.2 ⟨month, rfl, hmonth, hend⟩
    have hdays : ∀ rest, day.EndsBefore 2 rest →
        readTwo? (day.text ++ rest) = some (d.day, rest) :=
      fun _ hend => readTwo?_eq_some_iff.2 ⟨day, rfl, hday, hend⟩
    have hlastYear := hyears [] (year.endsBefore_nil 4)
    have hlastDay := hdays [] (day.endsBefore_nil 2)
    rw [List.append_nil] at hlastYear hlastDay
    cases layout with
    | yearFirst =>
      simp [Layout.read?, join, hyears _ (year.endsBefore_hyphen ..), behindHyphen?,
        hmonths _ (month.endsBefore_hyphen ..), hlastDay, of?_self]
    | compact =>
      obtain ⟨hend, hend'⟩ := hends rfl
      simp [Layout.read?, join, hyears _ hend, hmonths _ hend', hlastDay, of?_self]
    | dayFirst =>
      simp [Layout.read?, join, hdays _ (day.endsBefore_hyphen ..), behindHyphen?,
        hmonths _ (month.endsBefore_hyphen ..), hlastYear, of?_self]

/-- A layout reads no day from the texts that spell none. -/
lemma Layout.read?_eq_none_iff :
    layout.read? cs = none ↔ ∀ d, IsEmpty (layout.Spelling cs d) := by
  simp only [Option.eq_none_iff_forall_ne_some, ne_eq, read?_eq_some_iff, not_nonempty_iff]

/-! ### A text spells a day in one way -/

/-- A text of three numbers with hyphens between them tells the three. -/
lemma Numeral.unique_of_hyphens {first second third first' second' third' : Numeral}
    {year year' : Int} {k k' : Nat} (hfirst : first.IsYear year) (hfirst' : first'.IsYear year')
    (hsecond : second.IsTwo k) (hsecond' : second'.IsTwo k')
    (h : first.text ++ '-' :: (second.text ++ '-' :: third.text) =
      first'.text ++ '-' :: (second'.text ++ '-' :: third'.text)) :
    first = first' ∧ second = second' ∧ third = third' := by
  obtain ⟨hone, hrest⟩ := hfirst.unique hfirst' (first.endsBefore_hyphen ..)
    (first'.endsBefore_hyphen ..) h
  obtain ⟨htwo, hrest⟩ := hsecond.unique hsecond' (second.endsBefore_hyphen ..)
    (second'.endsBefore_hyphen ..) (List.cons.inj hrest).2
  exact ⟨hone, htwo, text_injective (List.cons.inj hrest).2⟩

/-- A text spells a day in a layout in one way. -/
lemma Layout.Spelling.unique (w w' : layout.Spelling cs d) : w = w' := by
  have h := w.eq_join.symm.trans w'.eq_join
  cases layout with
  | yearFirst =>
    obtain ⟨hyear, hmonth, hday⟩ :=
      Numeral.unique_of_hyphens w.isYear w'.isYear w.isMonth w'.isMonth h
    exact Spelling.ext hyear hmonth hday
  | compact =>
    obtain ⟨hend, hend'⟩ := w.ends rfl
    obtain ⟨hstop, hstop'⟩ := w'.ends rfl
    obtain ⟨hyear, hrest⟩ := w.isYear.unique w'.isYear hend hstop h
    obtain ⟨hmonth, hday⟩ := w.isMonth.unique w'.isMonth hend' hstop' hrest
    exact Spelling.ext hyear hmonth (Numeral.text_injective hday)
  | dayFirst =>
    obtain ⟨hday, hmonth, hyear⟩ :=
      Numeral.unique_of_hyphens w.isDay.isYear w'.isDay.isYear w.isMonth w'.isMonth h
    exact Spelling.ext hyear hmonth hday

/-- A text without hyphens between the numbers does not begin with a number and a hyphen. -/
lemma Layout.Spelling.ne_hyphen (w : Layout.compact.Spelling cs d) {n : Numeral} {year : Int}
    (hn : n.IsYear year) (rest : List Char) : cs ≠ n.text ++ '-' :: rest := by
  intro hcs
  obtain ⟨-, hrest⟩ := w.isYear.unique hn (w.ends rfl).1 (n.endsBefore_hyphen 4 rest)
    (w.eq_join.symm.trans hcs)
  have hnone := Numeral.behindHyphen?_text w.isMonth.sign_eq w.day.text
  rw [hrest] at hnone
  cases hnone

/-- The year of a text that spells a day both year first and day first has two digits at most. -/
lemma Layout.Spelling.length_le (w : Layout.yearFirst.Spelling cs d)
    (w' : Layout.dayFirst.Spelling cs other) :
    w.year.digits.length ≤ 2 ∧ w'.year.digits.length ≤ 2 := by
  obtain ⟨hfirst, -, hlast⟩ := Numeral.unique_of_hyphens w.isYear w'.isDay.isYear w.isMonth
    w'.isMonth (w.eq_join.symm.trans w'.eq_join)
  exact ⟨hfirst ▸ w'.isDay.length_le, hlast ▸ w.isDay.length_le⟩

end Spellings

/-! ## Regular texts -/

/-- The regular texts of a day: its ISO form, and the texts of the layouts if its year has four
digits. -/
def IsRegular (cs : List Char) (d : Date) : Prop :=
  cs = d.isoText ∨ 0 ≤ d.year ∧ d.year ≤ 9999 ∧ ∃ layout : Layout, cs = layout.text '-' '-' d

/-- A day is spelled in full if its numbers are written in full; in the ISO form the year may have a
sign. -/
structure Layout.Spelling.IsFull {layout : Layout} {cs : List Char} {d : Date}
    (w : layout.Spelling cs d) : Prop where
  /-- The year is written in full. -/
  year : w.year.IsFull 4 ∨ layout = .yearFirst ∧ w.year.IsFullSigned
  /-- The month is written in full. -/
  month : w.month.IsFull 2
  /-- The day of the month is written in full. -/
  day : w.day.IsFull 2

section Regular

variable {layout : Layout} {cs : List Char} {d : Date}

/-- A day that is spelled in full has this regular text. -/
lemma Layout.Spelling.IsFull.isRegular {w : layout.Spelling cs d} (h : w.IsFull) :
    IsRegular cs d := by
  have hmonth := h.month.text_eq (by decide)
  have hday := h.day.text_eq (by decide)
  rw [w.isMonth.digitsValue_eq] at hmonth
  rw [w.isDay.digitsValue_eq] at hday
  rcases h.year with hyear | ⟨rfl, hyear⟩
  · have hvalue : d.year = digitsValue w.year.digits := by
      rw [← w.isYear.value_eq, Numeral.value, hyear.sign_eq, if_neg (by decide)]
    have hlt := (hyear.digits_eq (by decide)).2
    refine .inr ⟨by omega, by omega, layout, ?_⟩
    rw [w.eq_join, hyear.text_eq (by decide), hmonth, hday, ← Int.natAbs_natCast (digitsValue _),
      ← hvalue]
    cases layout <;> rfl
  · refine .inl ?_
    rw [w.eq_join, hyear.text_eq w.isYear, hmonth, hday]
    rfl

/-- The year of the ISO form and the month and day in two digits, in the order of a layout, make a
regular text. -/
lemma IsRegular.exists_join (h : IsRegular cs d) : ∃ layout : Layout,
    cs = layout.join (yearText d.year) (padded 2 d.month) (padded 2 d.day) ∧
      (layout = .yearFirst ∨ 0 ≤ d.year ∧ d.year ≤ 9999) := by
  rcases h with rfl | ⟨hfirst, hlast, layout, rfl⟩
  · exact ⟨.yearFirst, rfl, .inl rfl⟩
  · refine ⟨layout, ?_, .inr ⟨hfirst, hlast⟩⟩
    rw [yearText, if_neg (by omega), if_neg (by omega)]
    cases layout <;> rfl

/-- A regular text spells the day in full. -/
lemma IsRegular.exists_isFull (h : IsRegular cs d) :
    ∃ (layout : Layout) (w : layout.Spelling cs d), w.IsFull := by
  obtain ⟨layout, rfl, hlayout⟩ := h.exists_join
  obtain ⟨hmonth, hday⟩ := d.month_day_lt
  obtain ⟨month, hmonthText, hmonthTwo, hmonthFull⟩ := exists_isTwo_isFull hmonth
  obtain ⟨day, hdayText, hdayTwo, hdayFull⟩ := exists_isTwo_isFull hday
  have hmonthEnds := fun rest : List Char => (Or.inl ⟨hmonthFull.sign_eq, hmonthFull.length_eq⟩ :
    month.EndsBefore 2 rest)
  rw [← hmonthText, ← hdayText]
  by_cases hfour : 0 ≤ d.year ∧ d.year ≤ 9999
  · obtain ⟨year, hyearText, hyear, hyearFull⟩ := exists_isYear_isFull hfour.1 hfour.2
    rw [← hyearText]
    exact ⟨layout, ⟨year, month, day, rfl, hyear, hmonthTwo, hdayTwo, fun _ =>
      ⟨.inl ⟨hyearFull.sign_eq, hyearFull.length_eq⟩, hmonthEnds _⟩⟩, .inl hyearFull, hmonthFull,
      hdayFull⟩
  · obtain rfl := hlayout.resolve_right hfour
    obtain ⟨year, hyearText, hyear, hyearFull⟩ := exists_isYear_isFullSigned d.year
      (by omega)
    rw [← hyearText]
    exact ⟨.yearFirst, ⟨year, month, day, rfl, hyear, hmonthTwo, hdayTwo, by simp⟩,
      .inr ⟨rfl, hyearFull⟩, hmonthFull, hdayFull⟩

/-- A text that spells a day in full spells it in no other layout. -/
lemma Layout.Spelling.IsFull.layout_eq {other : Layout} {w : layout.Spelling cs d} (h : w.IsFull)
    (w' : other.Spelling cs d) : other = layout := by
  have hlong : 2 < w.year.digits.length := by
    rcases h.year with hyear | ⟨-, hyear⟩
    · exact hyear.length_eq ▸ (by decide)
    · exact Nat.lt_of_lt_of_le (by decide) hyear.le_length
  cases layout with
  | yearFirst =>
    cases other with
    | yearFirst => rfl
    | compact => exact absurd w.eq_join (w'.ne_hyphen w.isYear _)
    | dayFirst => exact absurd (w.length_le w').1 (Nat.not_le_of_lt hlong)
  | compact =>
    cases other with
    | yearFirst => exact absurd w'.eq_join (w.ne_hyphen w'.isYear _)
    | compact => rfl
    | dayFirst => exact absurd w'.eq_join (w.ne_hyphen w'.isDay.isYear _)
  | dayFirst =>
    cases other with
    | yearFirst => exact absurd (w'.length_le w).2 (Nat.not_le_of_lt hlong)
    | compact => exact absurd w.eq_join (w'.ne_hyphen w.isDay.isYear _)
    | dayFirst => rfl

/-- **The regular texts** among those that spell a day are those that spell it in full. -/
theorem Layout.Spelling.isRegular_iff (w : layout.Spelling cs d) : IsRegular cs d ↔ w.IsFull := by
  constructor
  · intro h
    obtain ⟨other, w', hfull⟩ := h.exists_isFull
    obtain rfl := hfull.layout_eq w
    exact w.unique w' ▸ hfull
  · exact IsFull.isRegular

end Regular

/-! ## Texts that are read as a day -/

/-- A text without the white space around it and with hyphens in place of slashes. -/
def normalized (s : String) : List Char :=
  (Text.trimList s.toList).map hyphenated

/-- **The texts that are read as a day** are those that spell it in some layout, day first only if
they spell no day year first. They are regular exactly if their numbers are written in full.

**Proof sketch.** The layouts are tried in turn. A text that spells a day compactly has no hyphen
and so spells none in the other two layouts; one that is spelled day first is read so unless it also
spells a day year first, which is tried before. -/
theorem read?_eq_some_iff_spelling (s : String) (d : Date) :
    (read? s = some d ↔ ∃ layout : Layout, Nonempty (layout.Spelling (normalized s) d) ∧
      (layout = .dayFirst → ∀ other, IsEmpty (Layout.yearFirst.Spelling (normalized s) other))) ∧
    ∀ (layout : Layout) (w : layout.Spelling (normalized s) d),
      IsRegular (normalized s) d ↔ w.IsFull := by
  refine ⟨?_, fun layout w => w.isRegular_iff⟩
  have hread : read? s = (Layout.yearFirst.read? (normalized s)).or
      ((Layout.compact.read? (normalized s)).or (Layout.dayFirst.read? (normalized s))) := by
    show [Layout.yearFirst, .compact, .dayFirst].findSome? (fun layout =>
      layout.read? (normalized s)) = _
    simp only [List.findSome?_cons, List.findSome?_nil]
    cases Layout.yearFirst.read? (normalized s) <;> cases Layout.compact.read? (normalized s) <;>
      cases Layout.dayFirst.read? (normalized s) <;> rfl
  rw [hread, Option.or_eq_some_iff, Option.or_eq_some_iff]
  simp only [Layout.read?_eq_some_iff, Layout.read?_eq_none_iff]
  constructor
  · rintro (hspells | ⟨hyearFirst, hspells | ⟨-, hspells⟩⟩)
    · exact ⟨.yearFirst, hspells, by simp⟩
    · exact ⟨.compact, hspells, by simp⟩
    · exact ⟨.dayFirst, hspells, fun _ => hyearFirst⟩
  · rintro ⟨layout, ⟨w⟩, hyearFirst⟩
    cases layout with
    | yearFirst => exact .inl ⟨w⟩
    | compact =>
      refine .inr ⟨fun other => ⟨fun w' => ?_⟩, .inl ⟨w⟩⟩
      exact w.ne_hyphen w'.isYear _ w'.eq_join
    | dayFirst =>
      refine .inr ⟨hyearFirst rfl, .inr ⟨fun other => ⟨fun w' => ?_⟩, ⟨w⟩⟩⟩
      exact w'.ne_hyphen w.isDay.isYear _ w.eq_join

/-- A day of the year 99. -/
def earlyDay : Date := ⟨99, 1, 9, by decide⟩

/-- A text in which the year has two digits is read as a day of the first century. -/
theorem read?_twoDigitYear : read? "09-01-99" = some earlyDay ∧
    ¬ IsRegular (normalized "09-01-99") earlyDay := by
  have hread : read? "09-01-99" = some earlyDay := by decide +kernel
  let w : Layout.dayFirst.Spelling (normalized "09-01-99") earlyDay :=
    { year := .ofNat none (by simp) 2 99
      month := .ofNat none (by simp) 2 1
      day := .ofNat none (by simp) 2 9
      eq_join := by decide +kernel
      isYear := ⟨by decide, by decide⟩
      isMonth := ⟨by decide, by decide, by decide⟩
      isDay := ⟨by decide, by decide, by decide⟩
      ends := by simp }
  refine ⟨hread, fun h => ?_⟩
  rcases (((read?_eq_some_iff_spelling "09-01-99" earlyDay).2 .dayFirst w).1 h).year with
    hfull | ⟨hlayout, -⟩
  · exact absurd hfull.length_eq (by decide)
  · cases hlayout

end CardTable.Date
