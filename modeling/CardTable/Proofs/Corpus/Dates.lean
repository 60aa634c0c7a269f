import CardTable.Corpus.Date
import CardTable.Proofs.Number.Digits

set_option autoImplicit false

/-!
# Days and their texts

Each day in range is read from its ISO form, whatever its year. A day whose year has four digits is
also read from its text in each of the layouts, with slashes in place of hyphens and with white
space around it. No layout reads a text of another one: behind as many digits as it takes there is a
digit where it wants a hyphen, a hyphen where it wants a digit, or something where it wants the end.

## Main definitions

* `CardTable.Date.Layout.text` — the text of a day in a layout.

## Main results

* `CardTable.Text.trimList_append` — white space around a text is trimmed away.
* `CardTable.Date.Layout.read?_text` — each layout reads its own texts and refuses the others.
* `CardTable.Date.read?_written` — days are read from their texts.
-/

namespace CardTable

namespace Text

/-- Digits are no white space. -/
lemma isWhite_of_isDigit {c : Char} (h : c.isDigit = true) : isWhite c = false := by
  obtain ⟨hlow, hhigh⟩ : 0x30 ≤ c.toNat ∧ c.toNat ≤ 0x39 := Char.isDigit_iff_toNat.1 h
  have hspace : c ≠ ' ' := by
    rintro rfl
    cases h
  have hascii : c.toNat < 0x80 := by omega
  have hcontrol : ¬ c.toNat ≤ 13 := by omega
  simp [isWhite, hascii, hspace, hcontrol]

/-- In front of a text without white space none is dropped. -/
lemma dropWhile_isWhite_append {cs : List Char} (hne : cs ≠ [])
    (hcs : ∀ c ∈ cs, isWhite c = false)
    (behind : List Char) : (cs ++ behind).dropWhile isWhite = cs ++ behind := by
  obtain ⟨c, cs, rfl⟩ := List.exists_cons_of_ne_nil hne
  exact List.dropWhile_cons_of_neg (by simp [hcs c (List.mem_cons_self ..)])

/-- **White space around a text** without any is trimmed away. -/
theorem trimList_append {front cs behind : List Char} (hfront : ∀ c ∈ front, isWhite c = true)
    (hcs : ∀ c ∈ cs, isWhite c = false) (hbehind : ∀ c ∈ behind, isWhite c = true) :
    trimList (front ++ (cs ++ behind)) = cs := by
  rw [trimList, List.dropWhile_append_of_pos hfront]
  by_cases hnil : cs = []
  · rw [hnil, List.nil_append, dropWhile_isWhite_eq_nil_iff.2 hbehind]
    rfl
  · have hreverse : cs.reverse ≠ [] := fun h => hnil (List.reverse_eq_nil_iff.1 h)
    have hback :=
      dropWhile_isWhite_append hreverse (fun c hc => hcs c (List.mem_reverse.1 hc)) []
    rw [List.append_nil] at hback
    rw [dropWhile_isWhite_append hnil hcs, List.reverse_append,
      List.dropWhile_append_of_pos fun c hc => hbehind c (List.mem_reverse.1 hc), hback,
      List.reverse_reverse]

end Text

namespace Date

open CardTable.Text (isWhite digitsValue)

/-! ## Numbers with zeros in front -/

/-- Padded digits are digits, one at least. -/
lemma padded_spec (width n : Nat) :
    padded width n ≠ [] ∧ ∀ c ∈ padded width n, c.isDigit = true := by
  refine ⟨?_, fun c hc => ?_⟩
  · intro hnil
    exact Nat.toDigits_ne_nil (List.append_eq_nil_iff.1 hnil).2
  · rcases List.mem_append.1 hc with hzero | hdigit
    · rw [List.eq_of_mem_replicate hzero]
      rfl
    · exact Nat.isDigit_of_mem_toDigits (by decide) (by decide) hdigit

/-- A number is padded to the width, if it fits in. -/
lemma length_padded {width n : Nat} (hpos : 0 < width) (h : n < 10 ^ width) :
    (padded width n).length = width := by
  have hfits := (Nat.length_toDigits_le_iff (by decide) hpos).2 h
  simp only [padded, List.length_append, List.length_replicate]
  omega

/-- Padded digits write the number. -/
lemma digitsValue_padded (width n : Nat) : digitsValue (padded width n) = n := by
  rw [padded, Text.digitsValue_zeros_append fun c hc => List.eq_of_mem_replicate hc]
  exact Text.digitsValue_toDigits n

section Reading

variable {digits rest : List Char} {limit n : Nat}

/-- Digits at the beginning are read up to the limit. -/
lemma readDigits?_append (hlimit : 0 < limit) (hne : digits ≠ [])
    (hdigits : ∀ c ∈ digits, c.isDigit = true)
    (hend : limit ≤ digits.length ∨ ∀ c ∈ rest.head?, c.isDigit = false) :
    readDigits? limit (digits ++ rest) =
      some (digitsValue (digits.take limit), digits.drop limit ++ rest) := by
  have htake : ((digits ++ rest).take limit).takeWhile Char.isDigit = digits.take limit := by
    rw [List.take_append, List.takeWhile_append_of_pos fun c hc => hdigits c (List.mem_of_mem_take hc)]
    rcases hend with hlong | hlast
    · simp [Nat.sub_eq_zero_of_le hlong]
    · cases rest with
      | nil => simp
      | cons c rest =>
        have hc : c.isDigit = false := hlast c rfl
        cases limit - digits.length <;> simp [hc]
  have hsome : digits.take limit ≠ [] := by
    simp [List.take_eq_nil_iff, hne, Nat.ne_of_gt hlimit]
  have hsplit : digits ++ rest = digits.take limit ++ (digits.drop limit ++ rest) := by
    rw [← List.append_assoc, List.take_append_drop]
  rw [readDigits?, htake, if_neg hsome]
  conv_lhs => rw [hsplit, List.drop_left]

/-- White space is skipped in front of digits, of which there is none in front of others. -/
lemma dropWhile_isWhite_digits (hne : digits ≠ []) (hdigits : ∀ c ∈ digits, c.isDigit = true) :
    (digits ++ rest).dropWhile isWhite = digits ++ rest :=
  Text.dropWhile_isWhite_append hne (fun c hc => Text.isWhite_of_isDigit (hdigits c hc)) rest

/-- A month or day is read up to two digits. -/
lemma readTwo?_append (hne : digits ≠ []) (hdigits : ∀ c ∈ digits, c.isDigit = true)
    (hlong : 2 ≤ digits.length) :
    readTwo? (digits ++ rest) = some (digitsValue (digits.take 2), digits.drop 2 ++ rest) := by
  rw [readTwo?, dropWhile_isWhite_digits hne hdigits]
  exact readDigits?_append (by decide) hne hdigits (.inl hlong)

/-- A year without a sign is read up to four digits. -/
lemma readYear?_append (hne : digits ≠ []) (hdigits : ∀ c ∈ digits, c.isDigit = true)
    (hend : 4 ≤ digits.length ∨ ∀ c ∈ rest.head?, c.isDigit = false) :
    readYear? (digits ++ rest) =
      some ((digitsValue (digits.take 4) : Int), digits.drop 4 ++ rest) := by
  have hread := readDigits?_append (by decide : 0 < 4) hne hdigits hend
  obtain ⟨d, ds, rfl⟩ := List.exists_cons_of_ne_nil hne
  have hd := hdigits d (List.mem_cons_self ..)
  rw [readYear?, dropWhile_isWhite_digits hne hdigits]
  split
  · next heq => exact absurd hd ((List.cons.inj heq).1 ▸ by decide)
  · next heq => exact absurd hd ((List.cons.inj heq).1 ▸ by decide)
  · rw [hread]
    rfl

/-- A year behind a sign is read up to its last digit. -/
lemma readDigits?_length (rest : List Char) (hne : digits ≠ [])
    (hdigits : ∀ c ∈ digits, c.isDigit = true) :
    readDigits? (digits ++ '-' :: rest).length (digits ++ '-' :: rest) =
      some (digitsValue digits, '-' :: rest) := by
  have hlong : digits.length ≤ (digits ++ '-' :: rest).length := by simp
  have hhyphen : ∀ c ∈ ('-' :: rest).head?, c.isDigit = false := by
    rintro c ⟨⟩
    rfl
  have hpos : 0 < (digits ++ '-' :: rest).length := List.length_pos_iff.2 (by simp)
  rw [readDigits?_append hpos hne hdigits (.inr hhyphen), List.take_of_length_le hlong,
    List.drop_eq_nil_of_le hlong, List.nil_append]

end Reading

section Padded

variable {n : Nat} (rest : List Char)

/-- A padded month or day is read. -/
lemma readTwo?_padded (h : n < 100) : readTwo? (padded 2 n ++ rest) = some (n, rest) := by
  obtain ⟨hne, hdigits⟩ := padded_spec 2 n
  have hlength : (padded 2 n).length = 2 := length_padded (by decide) h
  rw [readTwo?_append hne hdigits hlength.ge, List.take_of_length_le hlength.le,
    List.drop_eq_nil_of_le hlength.le, digitsValue_padded, List.nil_append]

/-- A padded year is read. -/
lemma readYear?_padded (h : n < 10000) :
    readYear? (padded 4 n ++ rest) = some ((n : Int), rest) := by
  obtain ⟨hne, hdigits⟩ := padded_spec 4 n
  have hlength : (padded 4 n).length = 4 := length_padded (by decide) h
  rw [readYear?_append hne hdigits (.inl hlength.ge), List.take_of_length_le hlength.le,
    List.drop_eq_nil_of_le hlength.le, digitsValue_padded, List.nil_append]

/-- A month or day in place of a year is read, in front of a hyphen. -/
lemma readYear?_two (h : n < 100) :
    readYear? (padded 2 n ++ '-' :: rest) = some ((n : Int), '-' :: rest) := by
  obtain ⟨hne, hdigits⟩ := padded_spec 2 n
  have hlength : (padded 2 n).length ≤ 4 := by
    rw [length_padded (by decide) h]
    decide
  have hhyphen : ∀ c ∈ ('-' :: rest).head?, c.isDigit = false := by
    rintro c ⟨⟩
    rfl
  rw [readYear?_append hne hdigits (.inr hhyphen), List.take_of_length_le hlength,
    List.drop_eq_nil_of_le hlength, digitsValue_padded, List.nil_append]

/-- Half of a year in place of a month or day is read, in front of digits. -/
lemma exists_readTwo?_year (h : n < 10000) :
    ∃ k d ds, d.isDigit = true ∧ readTwo? (padded 4 n ++ rest) = some (k, d :: ds) := by
  obtain ⟨hne, hdigits⟩ := padded_spec 4 n
  have hlength : (padded 4 n).length = 4 := length_padded (by decide) h
  obtain ⟨d, ds, hdrop⟩ : ∃ d ds, (padded 4 n).drop 2 = d :: ds :=
    List.exists_cons_of_ne_nil (by simp [List.drop_eq_nil_iff, hlength])
  have hd : d ∈ (padded 4 n).drop 2 := hdrop ▸ List.mem_cons_self ..
  refine ⟨digitsValue ((padded 4 n).take 2), d, ds ++ rest, hdigits d (List.mem_of_mem_drop hd), ?_⟩
  rw [readTwo?_append hne hdigits (by omega), hdrop]
  rfl

/-- A year in the ISO form is read, in front of a hyphen. -/
lemma readYear?_yearText (year : Int) :
    readYear? (yearText year ++ '-' :: rest) = some (year, '-' :: rest) := by
  obtain ⟨hne, hdigits⟩ := padded_spec 4 year.natAbs
  have hsigned := readDigits?_length rest hne hdigits
  rw [digitsValue_padded] at hsigned
  unfold yearText
  split
  · next hnegative =>
    have hyear : (-(year.natAbs : Int)) = year := by omega
    rw [List.cons_append]
    show (readDigits? (padded 4 year.natAbs ++ '-' :: rest).length _).map _ = _
    rw [hsigned, Option.map_some]
    exact congrArg (fun year => some (year, '-' :: rest)) hyear
  split
  · next hpositive hlarge =>
    have hyear : (year.natAbs : Int) = year := by omega
    rw [List.cons_append]
    show (readDigits? (padded 4 year.natAbs ++ '-' :: rest).length _).map _ = _
    rw [hsigned, Option.map_some]
    exact congrArg (fun year => some (year, '-' :: rest)) hyear
  · next hpositive hsmall =>
    have hyear : (year.natAbs : Int) = year := by omega
    rw [readYear?_padded _ (by omega), hyear]

end Padded

/-! ## Days in layouts -/

/-- The text of a day in a layout, with the year in four digits and the month and the day in two
each. What stands between them are the two separators, if the layout has any. -/
def Layout.text (layout : Layout) (first second : Char) (d : Date) : List Char :=
  let year := padded 4 d.year.natAbs
  let month := padded 2 d.month
  let day := padded 2 d.day
  match layout with
  | .yearFirst => year ++ first :: (month ++ second :: day)
  | .compact => year ++ (month ++ day)
  | .dayFirst => day ++ first :: (month ++ second :: year)

/-- A day is the one of its year, month and day. -/
lemma of?_self (d : Date) : of? d.year d.month d.day = some d := by
  rw [of?, dif_pos d.isDay]

/-- Months and days have two digits. -/
lemma month_day_lt (d : Date) : d.month < 100 ∧ d.day < 100 := by
  obtain ⟨-, ⟨-, hmonth⟩, -, hday⟩ := d.isDay
  have hdays : daysInMonth d.year d.month ≤ 31 := by
    unfold daysInMonth
    split_ifs <;> decide
  omega

/-- Where a hyphen stands no month or day is read. -/
lemma readTwo?_hyphen (cs : List Char) : readTwo? ('-' :: cs) = none := by
  simp [readTwo?, readDigits?, show isWhite '-' = false by decide]

/-- Where a digit stands there is no hyphen. -/
lemma behindHyphen?_of_isDigit {c : Char} (hc : c.isDigit = true) (cs : List Char) :
    behindHyphen? (c :: cs) = none := by
  unfold behindHyphen?
  split
  · next heq => exact absurd hc ((List.cons.inj heq).1 ▸ by decide)
  · rfl

/-- Where padded digits stand there is no hyphen. -/
lemma behindHyphen?_padded (width n : Nat) (cs : List Char) :
    behindHyphen? (padded width n ++ cs) = none := by
  obtain ⟨hne, hdigits⟩ := padded_spec width n
  obtain ⟨d, ds, hpadded⟩ := List.exists_cons_of_ne_nil hne
  rw [hpadded]
  exact behindHyphen?_of_isDigit (hdigits d (hpadded ▸ List.mem_cons_self ..)) _

/-- **The ISO form of a day** is read year first. -/
theorem Layout.read?_isoText (d : Date) : Layout.yearFirst.read? d.isoText = some d := by
  obtain ⟨hmonth, hday⟩ := d.month_day_lt
  have hlast := readTwo?_padded [] hday
  rw [List.append_nil] at hlast
  simp only [Layout.read?, isoText, readYear?_yearText, behindHyphen?, readTwo?_padded _ hmonth, hlast,
    Option.bind_eq_bind, Option.bind_some, if_true, of?_self]

/-- **Each layout reads its own texts** and refuses those of the others.

**Proof sketch.** For each pair of layouts. A layout reads its own text numeral by numeral. In the
text of another layout it takes too few or too many digits for its first or last number, so that the
next sign is not the one that it expects: half of a year for a day, or a day for a year. -/
theorem Layout.read?_text {d : Date} (hfirst : 0 ≤ d.year) (hlast : d.year ≤ 9999)
    (layout other : Layout) :
    other.read? (layout.text '-' '-' d) = if other = layout then some d else none := by
  obtain ⟨hmonth, hday⟩ := d.month_day_lt
  have hyear : d.year.natAbs < 10000 := by omega
  have hsame : (d.year.natAbs : Int) = d.year := by omega
  have hyears := fun rest => readYear?_padded rest hyear
  have hmonths := fun rest => readTwo?_padded rest hmonth
  have hdays := fun rest => readTwo?_padded rest hday
  have hlastDay := hdays []
  have hlastYear := hyears []
  rw [List.append_nil] at hlastDay hlastYear
  cases layout with
  | yearFirst =>
    cases other with
    | yearFirst =>
      simp [Layout.read?, Layout.text, hyears, hmonths, hlastDay, behindHyphen?, hsame, of?_self]
    | compact => simp [Layout.read?, Layout.text, hyears, readTwo?_hyphen]
    | dayFirst =>
      -- half of the year is taken for the day
      obtain ⟨k, c, cs, hc, hhalf⟩ :=
        exists_readTwo?_year ('-' :: (padded 2 d.month ++ '-' :: padded 2 d.day)) hyear
      simp [Layout.read?, Layout.text, hhalf, behindHyphen?_of_isDigit hc]
  | compact =>
    cases other with
    | yearFirst => simp [Layout.read?, Layout.text, hyears, behindHyphen?_padded]
    | compact => simp [Layout.read?, Layout.text, hyears, hmonths, hlastDay, hsame, of?_self]
    | dayFirst =>
      obtain ⟨k, c, cs, hc, hhalf⟩ :=
        exists_readTwo?_year (padded 2 d.month ++ padded 2 d.day) hyear
      simp [Layout.read?, Layout.text, hhalf, behindHyphen?_of_isDigit hc]
  | dayFirst =>
    cases other with
    | yearFirst =>
      -- the day is taken for the year, and half of the year for the day
      obtain ⟨k, c, cs, hc, hhalf⟩ := exists_readTwo?_year [] hyear
      rw [List.append_nil] at hhalf
      simp [Layout.read?, Layout.text, readYear?_two _ hday, hmonths, behindHyphen?, hhalf]
    | compact => simp [Layout.read?, Layout.text, readYear?_two _ hday, readTwo?_hyphen]
    | dayFirst =>
      simp [Layout.read?, Layout.text, hdays, hmonths, hlastYear, behindHyphen?, hsame, of?_self]

/-! ## Texts of days -/

/-- A slash as a hyphen, and any other character as it is. -/
def hyphenated (c : Char) : Char :=
  if c = '/' then '-' else c

/-- Padded digits have no slash. -/
lemma map_hyphenated_padded (width n : Nat) :
    (padded width n).map hyphenated = padded width n := by
  refine List.map_congr_left (fun c hc => if_neg ?_) |>.trans (List.map_id _)
  rintro rfl
  exact absurd ((padded_spec width n).2 _ hc) (by decide)

/-- Slashes between the numbers of a day become hyphens. -/
lemma Layout.map_hyphenated_text (layout : Layout) (first second : Char) (d : Date) :
    (layout.text first second d).map hyphenated =
      layout.text (hyphenated first) (hyphenated second) d := by
  cases layout <;> simp [text, map_hyphenated_padded]

/-- The ISO form has no slash. -/
lemma map_hyphenated_isoText (d : Date) : d.isoText.map hyphenated = d.isoText := by
  have hyear : (yearText d.year).map hyphenated = yearText d.year := by
    unfold yearText
    split_ifs <;> simp [map_hyphenated_padded, hyphenated]
  simp [isoText, hyear, map_hyphenated_padded, hyphenated]

/-- In the text of a day there are digits and the separators. -/
lemma Layout.of_mem_text {layout : Layout} {first second c : Char} {d : Date}
    (h : c ∈ layout.text first second d) : c.isDigit = true ∨ c = first ∨ c = second := by
  have hdigits := fun width n => (padded_spec width n).2 c
  cases layout <;> grind [text]

/-- In the ISO form there are digits and signs. -/
lemma of_mem_isoText {c : Char} {d : Date} (h : c ∈ d.isoText) :
    c.isDigit = true ∨ c = '-' ∨ c = '+' := by
  have hdigits := fun width n => (padded_spec width n).2 c
  grind [isoText, yearText]

/-- **What a text is read as**, with white space around it: what the first of the layouts makes of
it that reads it, once its slashes are hyphens. -/
theorem read?_append {front cs behind : List Char} (hfront : ∀ c ∈ front, isWhite c = true)
    (hcs : ∀ c ∈ cs, isWhite c = false) (hbehind : ∀ c ∈ behind, isWhite c = true) :
    read? (String.ofList (front ++ (cs ++ behind))) =
      [Layout.yearFirst, .compact, .dayFirst].findSome? fun layout =>
        layout.read? (cs.map hyphenated) := by
  rw [read?, String.toList_ofList, readList?, Text.trimList_append hfront hcs hbehind]
  rfl

/-- **Days are read from their texts**: each day from its ISO form, and a day whose year has four
digits from its text in each layout, with hyphens or slashes and with white space around it. Of the
layouts only this one reads the text, so that none takes it for another day.

**Proof sketch.** White space is trimmed and slashes become hyphens (`read?_append`), so that the
text is in a layout with hyphens. Of the layouts only its own one reads it (`Layout.read?_text`). -/
theorem read?_written :
    (∀ d : Date, read? d.iso = some d) ∧
      ∀ d : Date, 0 ≤ d.year → d.year ≤ 9999 → ∀ layout : Layout,
        (∀ first ∈ ['-', '/'], ∀ second ∈ ['-', '/'], ∀ front behind : List Char,
          (∀ c ∈ front, isWhite c = true) → (∀ c ∈ behind, isWhite c = true) →
            read? (String.ofList (front ++ (layout.text first second d ++ behind))) = some d) ∧
        ∀ other : Layout,
          other.read? (layout.text '-' '-' d) = if other = layout then some d else none := by
  refine ⟨fun d => ?_, fun d hfirst hlast layout => ⟨?_, layout.read?_text hfirst hlast⟩⟩
  · have hwhite : ∀ c ∈ d.isoText, isWhite c = false := fun c hc => by
      rcases of_mem_isoText hc with h | rfl | rfl
      · exact Text.isWhite_of_isDigit h
      all_goals decide
    have hread := @read?_append [] d.isoText [] (by simp) hwhite (by simp)
    rw [map_hyphenated_isoText, List.append_nil, List.nil_append] at hread
    rw [iso, hread, List.findSome?_cons, Layout.read?_isoText]
  · intro first hseparator second hseparator' front behind hfront hbehind
    have hplain : ∀ c ∈ ['-', '/'], hyphenated c = '-' ∧ isWhite c = false := by decide
    have hwhite : ∀ c ∈ layout.text first second d, isWhite c = false := fun c hc => by
      rcases Layout.of_mem_text hc with h | rfl | rfl
      · exact Text.isWhite_of_isDigit h
      · exact (hplain c hseparator).2
      · exact (hplain c hseparator').2
    rw [read?_append hfront hwhite hbehind, Layout.map_hyphenated_text, (hplain first hseparator).1,
      (hplain second hseparator').1]
    simp only [Layout.read?_text hfirst hlast]
    cases layout <;> rfl

/-- A day that only leap years have. -/
def leapDay : Date := ⟨2000, 2, 29, by decide⟩

/-- This day, day first and between white space of more than one sort. -/
theorem read?_leapDay : 0 ≤ leapDay.year ∧ leapDay.year ≤ 9999 ∧
    (∀ c ∈ ['\t', '\u3000'], isWhite c = true) ∧ (∀ c ∈ ['\n'], isWhite c = true) ∧
    read? "\t\u300029/02-2000\n" = some leapDay := by
  have htext : "\t\u300029/02-2000\n" = String.ofList (['\t', '\u3000'] ++
      (Layout.dayFirst.text '/' '-' leapDay ++ ['\n'])) := by decide +kernel
  rw [htext]
  exact ⟨by decide, by decide, by decide, by decide, (read?_written.2 leapDay (by decide) (by decide)
    .dayFirst).1 '/' (by decide) '-' (by decide) _ _ (by decide) (by decide)⟩

end Date

end CardTable
