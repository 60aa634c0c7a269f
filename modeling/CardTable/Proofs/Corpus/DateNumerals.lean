import CardTable.Proofs.Corpus.Dates

set_option autoImplicit false

/-!
# Numbers in dates

The numbers of a date may have white space in front, and fewer digits than they are written with in
full; a year may have a sign and then any number of digits. At the beginning of a text the number is
read that takes as many digits as it may, and it tells how it is written.

## Main definitions

* `CardTable.Date.Numeral` — a number as it stands in a text.
* `CardTable.Date.Numeral.IsYear`, `CardTable.Date.Numeral.IsTwo` — what it stands for.
* `CardTable.Date.Numeral.IsFull`, `CardTable.Date.Numeral.IsFullSigned` — numbers written in full.

## Main results

* `CardTable.Date.readYear?_eq_some_iff`, `CardTable.Date.readTwo?_eq_some_iff` — what is read at
  the beginning of a text.
* `CardTable.Date.Numeral.IsYear.unique`, `CardTable.Date.Numeral.IsTwo.unique` — a text begins with
  one number.
-/

namespace CardTable.Date

open CardTable.Text (isWhite digitsValue)

/-! ## Numbers written in full -/

/-- Digits of the width, or more of them if the first one is not a zero, are those of their number
padded to the width. -/
lemma padded_digitsValue {width : Nat} {digits : List Char} (hne : digits ≠ [])
    (hdigits : ∀ c ∈ digits, c.isDigit = true) (hwidth : width ≤ digits.length)
    (hfirst : width < digits.length → digits.head? ≠ some '0') :
    padded width (digitsValue digits) = digits := by
  obtain ⟨zeros, hzeros, hsplit⟩ := Text.exists_zeros hne hdigits
  have hreplicate : zeros = List.replicate zeros.length '0' := List.eq_replicate_of_mem hzeros
  have hlength : digits.length = zeros.length + (Nat.toDigits 10 (digitsValue digits)).length := by
    conv_lhs => rw [hsplit, List.length_append]
  have hcount : width - (Nat.toDigits 10 (digitsValue digits)).length = zeros.length := by
    rcases hwidth.eq_or_lt with heq | hlt
    · omega
    · cases zeros with
      | nil =>
        rw [List.length_nil] at hlength ⊢
        omega
      | cons c zeros =>
        have hc : c = '0' := hzeros c (List.mem_cons_self ..)
        refine absurd ?_ (hfirst hlt)
        rw [hsplit, hc]
        rfl
  rw [padded, hcount, ← hreplicate]
  exact hsplit.symm

/-- A padded number has the width, or more digits of which the first one is not a zero. -/
lemma width_padded (width : Nat) (hpos : 0 < width) (n : Nat) :
    width ≤ (padded width n).length ∧
      (width < (padded width n).length → (padded width n).head? ≠ some '0') := by
  simp only [padded, List.length_append, List.length_replicate]
  refine ⟨by omega, fun hlt => ?_⟩
  have hzero : width - (Nat.toDigits 10 n).length = 0 := by omega
  rw [hzero, List.replicate_zero, List.nil_append]
  refine Text.head?_toDigits_ne (Nat.pos_of_ne_zero ?_)
  rintro rfl
  rw [show Nat.toDigits 10 0 = ['0'] from rfl, List.length_singleton] at hlt
  omega

/-! ## Numbers as they stand in a text -/

/-- A number as it stands in a text: white space, perhaps a sign, and digits. -/
@[ext] structure Numeral where
  /-- The white space in front. -/
  white : List Char
  /-- The sign, if there is one. -/
  sign : Option Char
  /-- The digits. -/
  digits : List Char
  /-- White space is white. -/
  isWhite_of_mem : ∀ c ∈ white, isWhite c = true
  /-- A sign is a hyphen or a plus sign. -/
  isSign_of_mem : ∀ c ∈ sign, c = '-' ∨ c = '+'
  /-- Digits are decimal ones. -/
  isDigit_of_mem : ∀ c ∈ digits, c.isDigit = true
  /-- There is a digit. -/
  digits_ne_nil : digits ≠ []

namespace Numeral

/-- The characters of a number. -/
def text (n : Numeral) : List Char :=
  n.white ++ (n.sign.toList ++ n.digits)

/-- The value of a number. -/
def value (n : Numeral) : Int :=
  if n.sign = some '-' then -(digitsValue n.digits : Int) else digitsValue n.digits

/-- A number that stands for a year: without a sign it has not more than four digits. -/
structure IsYear (n : Numeral) (year : Int) : Prop where
  /-- Without a sign there are not more than four digits. -/
  length_le : n.sign = none → n.digits.length ≤ 4
  /-- It has the value of the year. -/
  value_eq : n.value = year

/-- A number that stands for a month or a day: it has no sign and not more than two digits. -/
structure IsTwo (n : Numeral) (k : Nat) : Prop where
  /-- There is no sign. -/
  sign_eq : n.sign = none
  /-- There are not more than two digits. -/
  length_le : n.digits.length ≤ 2
  /-- The digits write the month or day. -/
  digitsValue_eq : digitsValue n.digits = k

/-- A number in front of a text from which it could not take another digit: it has the most digits
that it may have without a sign, or there is none. -/
def EndsBefore (n : Numeral) (width : Nat) (rest : List Char) : Prop :=
  (n.sign = none ∧ n.digits.length = width) ∨ ∀ c ∈ rest.head?, c.isDigit = false

variable {n m : Numeral}

/-- Behind the white space there is some other character. -/
lemma head?_any_isWhite (n : Numeral) (rest : List Char) :
    (n.sign.toList ++ (n.digits ++ rest)).head?.any isWhite = false := by
  obtain ⟨d, ds, hdigits⟩ := List.exists_cons_of_ne_nil n.digits_ne_nil
  have hd := Text.isWhite_of_isDigit (n.isDigit_of_mem d (hdigits ▸ List.mem_cons_self ..))
  cases hsign : n.sign with
  | none => simpa [hdigits] using hd
  | some c =>
    show isWhite c = false
    rcases n.isSign_of_mem c hsign with rfl | rfl <;> decide

/-- The white space in front is what can be dropped. -/
lemma dropWhile_isWhite_text (n : Numeral) (rest : List Char) :
    (n.text ++ rest).dropWhile isWhite = n.sign.toList ++ (n.digits ++ rest) := by
  rw [text, List.append_assoc, List.append_assoc]
  exact (Text.span_append n.isWhite_of_mem (n.head?_any_isWhite rest)).2

/-- The characters of a number tell what is in it. -/
lemma text_injective (h : n.text = m.text) : n = m := by
  have hn := Text.span_append n.isWhite_of_mem (n.head?_any_isWhite [])
  have hm := Text.span_append m.isWhite_of_mem (m.head?_any_isWhite [])
  simp only [List.append_nil] at hn hm
  have hwhite : n.white = m.white := hn.1.symm.trans ((congrArg _ h).trans hm.1)
  have hrest : n.sign.toList ++ n.digits = m.sign.toList ++ m.digits :=
    hn.2.symm.trans ((congrArg _ h).trans hm.2)
  -- a sign is no digit
  have hsigned : ∀ (a b : Numeral) (c : Char), a.sign = some c → b.digits ≠ c :: a.digits := by
    intro a b c hc heq
    have hdigit := b.isDigit_of_mem c (heq ▸ List.mem_cons_self ..)
    rcases a.isSign_of_mem c hc with rfl | rfl <;> cases hdigit
  cases hsn : n.sign with
  | none =>
    cases hsm : m.sign with
    | none => exact Numeral.ext hwhite (hsn.trans hsm.symm) (by simpa [hsn, hsm] using hrest)
    | some c => exact absurd (by simpa [hsn, hsm] using hrest) (hsigned m n c hsm)
  | some c =>
    cases hsm : m.sign with
    | none => exact absurd (by simpa [hsn, hsm] using hrest.symm) (hsigned n m c hsn)
    | some c' =>
      obtain ⟨hc, hdigits⟩ : c = c' ∧ n.digits = m.digits := by simpa [hsn, hsm] using hrest
      exact Numeral.ext hwhite (by rw [hsn, hsm, hc]) hdigits

/-- No number without a sign begins with a hyphen. -/
lemma behindHyphen?_text (hsign : n.sign = none) (rest : List Char) :
    behindHyphen? (n.text ++ rest) = none := by
  rw [text, hsign, Option.toList_none, List.nil_append]
  cases hwhite : n.white with
  | nil =>
    obtain ⟨d, ds, hdigits⟩ := List.exists_cons_of_ne_nil n.digits_ne_nil
    rw [hdigits]
    exact behindHyphen?_of_isDigit (n.isDigit_of_mem d (hdigits ▸ List.mem_cons_self ..)) _
  | cons c white =>
    have hc : isWhite c = true := n.isWhite_of_mem c (hwhite ▸ List.mem_cons_self ..)
    have hhyphen : c ≠ '-' := by
      rintro rfl
      exact absurd hc (by decide)
    rw [List.append_assoc, List.cons_append, behindHyphen?]
    exact fun behind heq => hhyphen (List.cons.inj heq).1

/-- A hyphen is no digit of the number in front of it. -/
lemma endsBefore_hyphen (n : Numeral) (width : Nat) (rest : List Char) :
    n.EndsBefore width ('-' :: rest) := by
  refine .inr ?_
  rintro c ⟨⟩
  rfl

/-- At the end of a text there is no other digit. -/
lemma endsBefore_nil (n : Numeral) (width : Nat) : n.EndsBefore width [] :=
  .inr (by simp)

end Numeral

/-! ## What is read at the beginning of a text -/

section Reading

variable {cs rest : List Char} {k : Nat}

/-- Of digits at the beginning the most that the limit allows are read. -/
lemma readDigits?_eq_some_iff {limit : Nat} :
    readDigits? limit cs = some (k, rest) ↔ ∃ digits : List Char, cs = digits ++ rest ∧
      digits ≠ [] ∧ (∀ c ∈ digits, c.isDigit = true) ∧ digits.length ≤ limit ∧
      (digits.length = limit ∨ ∀ c ∈ rest.head?, c.isDigit = false) ∧ digitsValue digits = k := by
  constructor
  · intro h
    obtain ⟨hne, hread⟩ : (cs.take limit).takeWhile Char.isDigit ≠ [] ∧ _ :=
      Option.ite_none_left_eq_some.1 h
    obtain ⟨rfl, rfl⟩ := Prod.mk.inj (Option.some.inj hread)
    -- the digits are followed by the others of the first `limit` characters, and by the rest
    have hfront := List.takeWhile_append_dropWhile (p := Char.isDigit) (l := cs.take limit)
    generalize hdigits : (cs.take limit).takeWhile Char.isDigit = digits at hne hfront ⊢
    generalize hmore : (cs.take limit).dropWhile Char.isDigit = more at hfront
    have hsplit : cs = digits ++ (more ++ cs.drop limit) := by
      rw [← List.append_assoc, hfront, List.take_append_drop]
    have hrest : cs.drop digits.length = more ++ cs.drop limit := by
      conv_lhs => rw [hsplit, List.drop_left]
    have hlength : digits.length + more.length = min limit cs.length := by
      rw [← List.length_append, hfront, List.length_take]
    refine ⟨digits, hrest ▸ hsplit, hne, fun c hc => ?_, by omega, ?_, rfl⟩
    · exact List.all_eq_true.1 (List.all_takeWhile (p := Char.isDigit)) c (hdigits ▸ hc)
    · rw [hrest]
      cases more with
      | nil =>
        refine or_iff_not_imp_left.2 fun hshort => ?_
        rw [List.length_nil] at hlength
        rw [List.nil_append, List.drop_eq_nil_of_le (by omega)]
        simp
      | cons c more =>
        have hstop := List.head?_dropWhile_not Char.isDigit (cs.take limit)
        rw [hmore] at hstop
        refine .inr ?_
        rintro _ ⟨⟩
        exact hstop
  · rintro ⟨digits, rfl, hne, hdigits, hlength, hend, rfl⟩
    have hpos : 0 < limit := (List.length_pos_iff.2 hne).trans_le hlength
    rw [readDigits?_append hpos hne hdigits (hend.imp_left Eq.ge), List.take_of_length_le hlength,
      List.drop_eq_nil_of_le hlength, List.nil_append]

/-- A sign and digits behind white space make a number. -/
lemma exists_numeral (sign : Option Char) {digits : List Char}
    (hdrop : cs.dropWhile isWhite = sign.toList ++ (digits ++ rest))
    (hsign : ∀ c ∈ sign, c = '-' ∨ c = '+') (hdigits : ∀ c ∈ digits, c.isDigit = true)
    (hne : digits ≠ []) :
    ∃ n : Numeral, cs = n.text ++ rest ∧ n.sign = sign ∧ n.digits = digits := by
  have hwhite : ∀ c ∈ cs.takeWhile isWhite, isWhite c = true := fun c hc =>
    List.all_eq_true.1 (List.all_takeWhile (p := isWhite)) c hc
  refine ⟨⟨cs.takeWhile isWhite, sign, digits, hwhite, hsign, hdigits, hne⟩, ?_, rfl, rfl⟩
  conv_lhs => rw [← List.takeWhile_append_dropWhile (p := isWhite) (l := cs), hdrop]
  simp [Numeral.text]

/-- **A month or day is read** with the white space in front and not more than two digits. -/
theorem readTwo?_eq_some_iff : readTwo? cs = some (k, rest) ↔
    ∃ n : Numeral, cs = n.text ++ rest ∧ n.IsTwo k ∧ n.EndsBefore 2 rest := by
  rw [readTwo?, readDigits?_eq_some_iff]
  constructor
  · rintro ⟨digits, hdrop, hne, hdigits, hlength, hend, hvalue⟩
    obtain ⟨n, hcs, hsign, rfl⟩ := exists_numeral none hdrop (by simp) hdigits hne
    exact ⟨n, hcs, ⟨hsign, hlength, hvalue⟩, hend.imp_left (And.intro hsign)⟩
  · rintro ⟨n, rfl, htwo, hend⟩
    rw [n.dropWhile_isWhite_text, htwo.sign_eq]
    exact ⟨n.digits, rfl, n.digits_ne_nil, n.isDigit_of_mem, htwo.length_le,
      hend.imp_left And.right, htwo.digitsValue_eq⟩

/-- Behind a sign all digits are read. -/
lemma readDigits?_length_eq_some_iff : readDigits? cs.length cs = some (k, rest) ↔
    ∃ digits : List Char, cs = digits ++ rest ∧ digits ≠ [] ∧ (∀ c ∈ digits, c.isDigit = true) ∧
      (∀ c ∈ rest.head?, c.isDigit = false) ∧ digitsValue digits = k := by
  rw [readDigits?_eq_some_iff]
  refine exists_congr fun digits => and_congr_right fun hsplit => ?_
  have hlength : cs.length = digits.length + rest.length := by rw [hsplit, List.length_append]
  refine and_congr_right fun hne => and_congr_right fun hdigits => ⟨?_, ?_⟩
  · rintro ⟨-, hend, hvalue⟩
    refine ⟨hend.elim (fun heq => ?_) id, hvalue⟩
    rw [List.eq_nil_of_length_eq_zero (l := rest) (by omega)]
    simp
  · exact fun ⟨hend, hvalue⟩ => ⟨by omega, .inr hend, hvalue⟩

/-- Behind a sign a year is read from all digits that stand there. -/
lemma exists_numeral_of_sign (value : Nat → Int) {c : Char} {behind : List Char} {year : Int}
    (hdrop : cs.dropWhile isWhite = c :: behind) (hc : c = '-' ∨ c = '+')
    (hvalue : ∀ k : Nat, value k = if some c = some '-' then -(k : Int) else k)
    (h : (readDigits? behind.length behind).map (fun (k, rest) => (value k, rest)) =
      some (year, rest)) :
    ∃ n : Numeral, cs = n.text ++ rest ∧ n.IsYear year ∧ n.EndsBefore 4 rest := by
  obtain ⟨⟨k, _⟩, hread, heq⟩ := Option.map_eq_some_iff.1 h
  obtain ⟨rfl, rfl⟩ := Prod.mk.inj heq
  obtain ⟨digits, rfl, hne, hdigits, hend, rfl⟩ := readDigits?_length_eq_some_iff.1 hread
  obtain ⟨n, hcs, hsign, rfl⟩ := exists_numeral (some c) hdrop (by simpa using hc) hdigits hne
  refine ⟨n, hcs, ⟨fun hnone => ?_, ?_⟩, .inr hend⟩
  · rw [hsign] at hnone
    cases hnone
  · rw [hvalue, Numeral.value, hsign]

/-- **A year is read** with the white space in front and not more than four digits, or with a sign
and all digits behind it.

**Proof sketch.** What is left behind the white space decides between the two signs and no sign.
Behind a sign all digits belong to the year; without one they do up to the fourth. In both cases the
reader of digits says exactly what it takes and where it stops (`readDigits?_eq_some_iff`). -/
theorem readYear?_eq_some_iff {year : Int} : readYear? cs = some (year, rest) ↔
    ∃ n : Numeral, cs = n.text ++ rest ∧ n.IsYear year ∧ n.EndsBefore 4 rest := by
  constructor
  · intro h
    -- what is left behind the white space decides between the two signs and no sign
    unfold readYear? at h
    split at h
    · next behind hdrop =>
      exact exists_numeral_of_sign (fun k => -(k : Int)) hdrop (.inl rfl) (fun _ => rfl) h
    · next behind hdrop =>
      exact exists_numeral_of_sign (fun k => k) hdrop (.inr rfl) (fun _ => rfl) h
    · next behind hdrop =>
      obtain ⟨⟨k, _⟩, hread, heq⟩ := Option.map_eq_some_iff.1 h
      obtain ⟨rfl, rfl⟩ := Prod.mk.inj heq
      obtain ⟨digits, hsplit, hne, hdigits, hlength, hend, hvalue⟩ :=
        readDigits?_eq_some_iff.1 hread
      obtain ⟨n, hcs, hsign, rfl⟩ := exists_numeral none hsplit (by simp) hdigits hne
      exact ⟨n, hcs, ⟨fun _ => hlength, by simp [Numeral.value, hsign, hvalue]⟩,
        hend.imp_left (And.intro hsign)⟩
  · rintro ⟨n, rfl, hyear, hend⟩
    have hskip : readYear? (n.text ++ rest) = readYear? (n.sign.toList ++ (n.digits ++ rest)) := by
      have hnone : ∀ c ∈ [], isWhite c = true := by simp
      have hdrop := (Text.span_append hnone (n.head?_any_isWhite rest)).2
      rw [List.nil_append] at hdrop
      rw [readYear?, readYear?, n.dropWhile_isWhite_text, hdrop]
    rw [hskip, ← hyear.value_eq, Numeral.value]
    cases hsign : n.sign with
    | none =>
      have hshort := hyear.length_le hsign
      rw [Option.toList_none, List.nil_append, readYear?_append n.digits_ne_nil n.isDigit_of_mem
        (hend.imp_left fun h => h.2.ge), List.take_of_length_le hshort,
        List.drop_eq_nil_of_le hshort, List.nil_append, if_neg (by decide)]
    | some c =>
      have hstop : ∀ c ∈ rest.head?, c.isDigit = false :=
        hend.resolve_left fun h => by simp [hsign] at h
      have hread : readDigits? (n.digits ++ rest).length (n.digits ++ rest) =
          some (digitsValue n.digits, rest) :=
        readDigits?_length_eq_some_iff.2
          ⟨n.digits, rfl, n.digits_ne_nil, n.isDigit_of_mem, hstop, rfl⟩
      rcases n.isSign_of_mem c hsign with rfl | rfl
      · show (readDigits? (n.digits ++ rest).length (n.digits ++ rest)).map _ = _
        rw [hread]
        rfl
      · show (readDigits? (n.digits ++ rest).length (n.digits ++ rest)).map _ = _
        rw [hread]
        rfl

end Reading

/-! ## A text begins with one number -/

section Unique

variable {n m : Numeral} {rest rest' : List Char}

/-- A month or day may stand for a year. -/
lemma Numeral.IsTwo.isYear {k : Nat} (h : n.IsTwo k) : n.IsYear k where
  length_le _ := h.length_le.trans (by decide)
  value_eq := by rw [value, h.sign_eq, if_neg (by decide), h.digitsValue_eq]

/-- A text begins with one year. -/
theorem Numeral.IsYear.unique {year year' : Int} (hn : n.IsYear year) (hm : m.IsYear year')
    (hrest : n.EndsBefore 4 rest) (hrest' : m.EndsBefore 4 rest')
    (h : n.text ++ rest = m.text ++ rest') : n = m ∧ rest = rest' := by
  have hread := readYear?_eq_some_iff.2 ⟨n, rfl, hn, hrest⟩
  rw [readYear?_eq_some_iff.2 ⟨m, h, hm, hrest'⟩] at hread
  obtain rfl : rest = rest' := (Prod.mk.inj (Option.some.inj hread)).2.symm
  exact ⟨text_injective (List.append_cancel_right h), rfl⟩

/-- A text begins with one month or day. -/
theorem Numeral.IsTwo.unique {k k' : Nat} (hn : n.IsTwo k) (hm : m.IsTwo k')
    (hrest : n.EndsBefore 2 rest) (hrest' : m.EndsBefore 2 rest')
    (h : n.text ++ rest = m.text ++ rest') : n = m ∧ rest = rest' := by
  have hread := readTwo?_eq_some_iff.2 ⟨n, rfl, hn, hrest⟩
  rw [readTwo?_eq_some_iff.2 ⟨m, h, hm, hrest'⟩] at hread
  obtain rfl : rest = rest' := (Prod.mk.inj (Option.some.inj hread)).2.symm
  exact ⟨text_injective (List.append_cancel_right h), rfl⟩

end Unique

/-! ## Numbers as regular texts have them -/

/-- A number that is written in full has digits of the given width, and nothing else. -/
structure Numeral.IsFull (n : Numeral) (width : Nat) : Prop where
  /-- There is no white space. -/
  white_eq : n.white = []
  /-- There is no sign. -/
  sign_eq : n.sign = none
  /-- The digits have the width. -/
  length_eq : n.digits.length = width

/-- A year with a sign that is written as in the ISO form. -/
structure Numeral.IsFullSigned (n : Numeral) : Prop where
  /-- There is no white space. -/
  white_eq : n.white = []
  /-- The sign is needed. -/
  sign_eq : n.sign = some '-' ∧ 0 < digitsValue n.digits ∨
    n.sign = some '+' ∧ 9999 < digitsValue n.digits
  /-- There are four digits at least. -/
  le_length : 4 ≤ n.digits.length
  /-- Of more than four digits the first one is not a zero. -/
  head?_ne : 4 < n.digits.length → n.digits.head? ≠ some '0'

section Full

variable {n : Numeral}

/-- The digits of a number that is written in full are padded to the width, which bounds it. -/
lemma Numeral.IsFull.digits_eq {width : Nat} (hpos : 0 < width) (h : n.IsFull width) :
    padded width (digitsValue n.digits) = n.digits ∧ digitsValue n.digits < 10 ^ width := by
  have hdigits := padded_digitsValue n.digits_ne_nil n.isDigit_of_mem h.length_eq.ge
    fun hlt => absurd h.length_eq (Nat.ne_of_gt hlt)
  refine ⟨hdigits, (Nat.length_toDigits_le_iff (by decide) hpos).1 ?_⟩
  have hlength := h.length_eq
  rw [← hdigits, padded, List.length_append] at hlength
  omega

/-- A number that is written in full is just its digits. -/
lemma Numeral.IsFull.text_eq {width : Nat} (hpos : 0 < width) (h : n.IsFull width) :
    n.text = padded width (digitsValue n.digits) := by
  rw [(h.digits_eq hpos).1, text, h.white_eq, h.sign_eq]
  rfl

/-- A year with a sign that is written in full is the one of the ISO form. -/
lemma Numeral.IsFullSigned.text_eq {year : Int} (h : n.IsFullSigned) (hyear : n.IsYear year) :
    n.text = yearText year := by
  have hdigits := padded_digitsValue n.digits_ne_nil n.isDigit_of_mem h.le_length h.head?_ne
  have hvalue := hyear.value_eq
  rw [value] at hvalue
  rw [text, h.white_eq, yearText, ← hdigits]
  rcases h.sign_eq with ⟨hsign, hpos⟩ | ⟨hsign, hlarge⟩
  · rw [if_pos hsign] at hvalue
    rw [hsign, if_pos (by omega), ← hvalue, Int.natAbs_neg, Int.natAbs_natCast]
    rfl
  · rw [hsign, if_neg (by decide)] at hvalue
    rw [hsign, if_neg (by omega), if_pos (by omega), ← hvalue, Int.natAbs_natCast]
    rfl

end Full

/-- Padded digits as a number in a text, behind a sign if one is given. -/
def Numeral.ofNat (sign : Option Char) (hsign : ∀ c ∈ sign, c = '-' ∨ c = '+') (width k : Nat) :
    Numeral where
  white := []
  sign := sign
  digits := padded width k
  isWhite_of_mem := by simp
  isSign_of_mem := hsign
  isDigit_of_mem := (padded_spec width k).2
  digits_ne_nil := (padded_spec width k).1

/-- The value of padded digits. -/
lemma Numeral.value_ofNat (sign : Option Char) (hsign : ∀ c ∈ sign, c = '-' ∨ c = '+')
    (width k : Nat) :
    (ofNat sign hsign width k).value = if sign = some '-' then -(k : Int) else k := by
  simp only [value, ofNat, digitsValue_padded]

/-- A month or day can be written in full. -/
lemma exists_isTwo_isFull {k : Nat} (h : k < 100) :
    ∃ n : Numeral, n.text = padded 2 k ∧ n.IsTwo k ∧ n.IsFull 2 := by
  have hlength : (padded 2 k).length = 2 := length_padded (by decide) h
  exact ⟨.ofNat none (by simp) 2 k, rfl, ⟨rfl, hlength.le, digitsValue_padded 2 k⟩, rfl, rfl, hlength⟩

/-- A year of four digits can be written in full. -/
lemma exists_isYear_isFull {year : Int} (hfirst : 0 ≤ year) (hlast : year ≤ 9999) :
    ∃ n : Numeral, n.text = yearText year ∧ n.IsYear year ∧ n.IsFull 4 := by
  have hlength : (padded 4 year.natAbs).length = 4 := length_padded (by decide) (by omega)
  refine ⟨.ofNat none (by simp) 4 year.natAbs, ?_, ⟨fun _ => hlength.le, ?_⟩, rfl, rfl, hlength⟩
  · rw [yearText, if_neg (by omega), if_neg (by omega)]
    rfl
  · rw [Numeral.value_ofNat, if_neg (by decide), Int.natAbs_of_nonneg hfirst]

/-- Any other year can be written in full with a sign. -/
lemma exists_isYear_isFullSigned (year : Int) (h : year < 0 ∨ 9999 < year) :
    ∃ n : Numeral, n.text = yearText year ∧ n.IsYear year ∧ n.IsFullSigned := by
  obtain ⟨hwidth, hzero⟩ := width_padded 4 (by decide) year.natAbs
  have hdigits := digitsValue_padded 4 year.natAbs
  by_cases hnegative : year < 0
  · have hpos : 0 < digitsValue (padded 4 year.natAbs) := by omega
    refine ⟨.ofNat (some '-') (by simp) 4 year.natAbs, ?_,
      ⟨fun hnone => absurd hnone (Option.some_ne_none _), ?_⟩, rfl, .inl ⟨rfl, hpos⟩, hwidth, hzero⟩
    · rw [yearText, if_pos hnegative]
      rfl
    · rw [Numeral.value_ofNat, if_pos rfl]
      omega
  · have hlarge : 9999 < digitsValue (padded 4 year.natAbs) := by omega
    refine ⟨.ofNat (some '+') (by simp) 4 year.natAbs, ?_,
      ⟨fun hnone => absurd hnone (Option.some_ne_none _), ?_⟩, rfl, .inr ⟨rfl, hlarge⟩, hwidth, hzero⟩
    · rw [yearText, if_neg hnegative, if_pos (by omega)]
      rfl
    · rw [Numeral.value_ofNat, if_neg (by decide)]
      omega

end CardTable.Date
