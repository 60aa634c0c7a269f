import Mathlib.Data.List.Induction
import CardTable.Proofs.Number.WholeDoubles
import CardTable.Script.Conversion

set_option autoImplicit false

/-!
# Digits of whole numbers

The digits of a whole number write this number, and it is the value of a numeric literal if it has
at most 53 bits. The array indices among the names of properties are the texts of the numbers below
`2 ^ 32 - 1`.

## Main results

* `CardTable.Text.digitsValue_toDigits` — the digits of a number write it.
* `CardTable.Text.exists_zeros` — digits are those of the number that they write, behind zeros.
* `CardTable.Script.numberValue_ofDecimal?` — the value of a numeric literal.
* `CardTable.Script.indexKey?_eq_some_iff` — array indices are the texts of numbers.
-/

namespace CardTable

namespace Text

/-- The number that digits write, in the terms of the core library. -/
lemma digitsValue_eq_ofDigitChars (digits : List Char) :
    digitsValue digits = Nat.ofDigitChars 10 digits 0 := by
  rw [digitsValue, Nat.ofDigitChars_eq_foldl]
  congr 1
  funext acc c
  rw [Nat.mul_comm, digitValue]

/-- The digits of a number write it. -/
theorem digitsValue_toDigits (n : Nat) : digitsValue (Nat.toDigits 10 n) = n := by
  rw [digitsValue_eq_ofDigitChars, Nat.ofDigitChars_ten_toDigits]

/-- The digits of a number other than zero do not begin with a zero. -/
lemma head?_toDigits_ne {n : Nat} (h : 0 < n) : (Nat.toDigits 10 n).head? ≠ some '0' := by
  induction n using Nat.strongRecOn with
  | _ n ih =>
    by_cases hsmall : n < 10
    · rw [Nat.toDigits_of_lt_base hsmall]
      simpa using Nat.ne_of_gt h
    · rw [Nat.toDigits_of_base_le (by decide) (Nat.le_of_not_lt hsmall),
        List.head?_append]
      have hfirst := ih (n / 10) (by omega) (by omega)
      cases hdigits : Nat.toDigits 10 (n / 10) with
      | nil => exact absurd hdigits Nat.toDigits_ne_nil
      | cons c rest => simpa [hdigits] using hfirst

/-- A digit is the one that stands for its value. -/
lemma digitChar_digitValue {c : Char} (h : c.isDigit = true) :
    digitValue c < 10 ∧ Nat.digitChar (digitValue c) = c := by
  simp only [Char.isDigit, Bool.and_eq_true, decide_eq_true_eq] at h
  obtain ⟨hlow, hhigh⟩ := h
  have hlow' : 48 ≤ c.toNat := hlow
  have hhigh' : c.toNat ≤ 57 := hhigh
  have hvalue : digitValue c < 10 := by
    change c.toNat - 48 < 10
    omega
  refine ⟨hvalue, Char.toNat_inj.1 ?_⟩
  rw [Nat.toNat_digitChar_of_lt_ten hvalue]
  change 48 + (c.toNat - 48) = c.toNat
  omega

/-- Digits that do not begin with a zero are those of the number that they write. -/
lemma toDigits_digitsValue {digits : List Char} (hdigits : ∀ c ∈ digits, c.isDigit = true)
    (hfirst : digits.head?.any (· != '0') = true) :
    0 < digitsValue digits ∧ Nat.toDigits 10 (digitsValue digits) = digits := by
  induction digits using List.reverseRecOn with
  | nil => cases hfirst
  | append_singleton front c ih =>
    obtain ⟨hvalue, hchar⟩ := digitChar_digitValue (hdigits c (by simp))
    rw [digitsValue_concat]
    cases front with
    | nil =>
      have hzero : c ≠ '0' := by simpa using hfirst
      have hpos : 0 < digitValue c := by
        refine Nat.pos_of_ne_zero fun h => hzero ?_
        rw [← hchar, h]
        rfl
      rw [digitsValue_nil, Nat.zero_mul, Nat.zero_add, Nat.toDigits_of_lt_base hvalue, hchar]
      exact ⟨hpos, rfl⟩
    | cons d front =>
      obtain ⟨hpos, hsame⟩ := ih (fun e he => hdigits e (List.mem_append_left _ he)) hfirst
      refine ⟨by omega, ?_⟩
      rw [Nat.mul_comm, ← Nat.toDigits_append_toDigits (by decide) hpos hvalue, hsame,
        Nat.toDigits_of_lt_base hvalue, hchar]

/-! ## Leading zeros -/

/-- A zero in front of digits adds nothing. -/
lemma digitsValue_zero_cons (digits : List Char) :
    digitsValue ('0' :: digits) = digitsValue digits :=
  rfl

/-- Zeros in front of digits add nothing. -/
lemma digitsValue_zeros_append {zeros : List Char} (h : ∀ c ∈ zeros, c = '0')
    (digits : List Char) : digitsValue (zeros ++ digits) = digitsValue digits := by
  induction zeros with
  | nil => rfl
  | cons c zeros ih =>
    obtain ⟨rfl, hzeros⟩ := List.forall_mem_cons.1 h
    rw [List.cons_append, digitsValue_zero_cons, ih hzeros]

/-- Digits are those of the number that they write, behind zeros. -/
theorem exists_zeros {digits : List Char} (hne : digits ≠ [])
    (hdigits : ∀ c ∈ digits, c.isDigit = true) :
    ∃ zeros, (∀ c ∈ zeros, c = '0') ∧ digits = zeros ++ Nat.toDigits 10 (digitsValue digits) := by
  induction digits with
  | nil => exact absurd rfl hne
  | cons c rest ih =>
    by_cases hc : c = '0'
    · subst hc
      rw [digitsValue_zero_cons]
      cases rest with
      | nil => exact ⟨[], nofun, rfl⟩
      | cons d rest =>
        obtain ⟨zeros, hzeros, hrest⟩ := ih (List.cons_ne_nil _ _) fun e he =>
          hdigits e (List.mem_cons_of_mem _ he)
        refine ⟨'0' :: zeros, List.forall_mem_cons.2 ⟨rfl, hzeros⟩, ?_⟩
        rw [List.cons_append, ← hrest]
    · obtain ⟨-, hsame⟩ := toDigits_digitsValue hdigits (by simpa using hc)
      exact ⟨[], nofun, hsame.symm⟩

end Text

namespace Script

open CardTable.Text (digitsValue)

/-- **The value of a numeric literal** that writes a whole number of at most 53 bits. -/
theorem numberValue_ofDecimal? {n : Nat} (h : n ≤ maxSafe) :
    numberValue (Double.ofDecimal? false n 0) = .num (.ofInt n) := by
  have hlt : n < 2 ^ 53 := Nat.lt_of_le_of_lt h (by decide)
  have hlength : (Nat.toDigits 10 n).length ≤ 16 :=
    (Nat.length_toDigits_le_iff (by decide) (by decide)).2 (Nat.lt_of_le_of_lt h (by decide))
  obtain ⟨x, hx, hwhole⟩ := Double.exists_ofRatio?_of_lt hlt
  have hliteral : numberValue (some x) = .num (.ofInt n) := by
    simp only [numberValue, hwhole, Int.natAbs_natCast, if_pos h]
  unfold Double.ofDecimal?
  dsimp only
  by_cases hzero : n = 0
  · subst hzero
    rw [if_pos (.inl rfl)]
    simp [numberValue, Double.toInt?, Double.units, Double.unitsAt]
  · rw [if_neg (by omega), if_neg (by omega), if_pos (by decide)]
    rw [← hliteral, ← hx]
    simp

/-- A double from `2 ^ 53` on is kept as a double. -/
lemma numberValue_of_large {x : Double} (h : 2 ^ 53 * Double.one ≤ x.units) :
    numberValue (some x) = .num (.double x) := by
  simp only [numberValue]
  split
  · next n hn =>
    refine if_neg fun hsafe => ?_
    unfold Double.toInt? at hn
    split at hn
    · have hquotient : 2 ^ 53 ≤ x.units / Double.one :=
        (Nat.le_div_iff_mul_le Double.one_pos).2 h
      have habs : n.natAbs = x.units / Double.one := by
        rw [← Option.some.inj hn]
        generalize x.units / Double.one = k
        split
        · rw [Int.natAbs_neg, Int.natAbs_natCast]
        · rw [Int.natAbs_natCast]
      rw [habs] at hsafe
      exact absurd (Nat.le_trans hquotient hsafe) (by decide)
    · cases hn
  · rfl

/-- **The array indices** are the texts of the numbers below `2 ^ 32 - 1`.

**Proof sketch.** A text of digits without a zero in front is the text of its value
(`Text.toDigits_digitsValue`), and the text of a number is such a text and has this number for its
value. -/
theorem indexKey?_eq_some_iff {key : String} {n : Nat} :
    indexKey? key = some n ↔ n < 4294967295 ∧ key = Nat.repr n := by
  have hrepr : key = Nat.repr n ↔ key.toList = Nat.toDigits 10 n := by
    rw [← Nat.toList_repr, String.toList_inj]
  unfold indexKey?
  dsimp only
  rw [hrepr, Option.ite_none_right_eq_some]
  constructor
  · rintro ⟨⟨hne, hdigits, hzero, hlt⟩, hvalue⟩
    obtain rfl := Option.some.inj hvalue
    refine ⟨hlt, ?_⟩
    have hall : ∀ c ∈ key.toList, c.isDigit = true := List.all_eq_true.1 hdigits
    obtain ⟨c, rest, hkey⟩ := List.exists_cons_of_ne_nil hne
    by_cases hc : c = '0'
    · rw [hzero (by rw [hkey, hc]; rfl)]
      decide
    · exact (Text.toDigits_digitsValue hall (by rw [hkey]; simpa using hc)).2.symm
  · rintro ⟨hlt, hkey⟩
    rw [hkey]
    refine ⟨⟨Nat.toDigits_ne_nil, ?_, ?_, ?_⟩, ?_⟩
    · exact List.all_eq_true.2 fun c hc => Nat.isDigit_of_mem_toDigits (by decide) (by decide) hc
    · intro hzero
      rcases Nat.eq_zero_or_pos n with rfl | hpos
      · rfl
      · exact absurd hzero (Text.head?_toDigits_ne hpos)
    · rwa [Text.digitsValue_toDigits]
    · rw [Text.digitsValue_toDigits]

end Script

end CardTable
