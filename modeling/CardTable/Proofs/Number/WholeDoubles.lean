import Mathlib.Algebra.Order.Ring.Int
import CardTable.Value.Basic

set_option autoImplicit false

/-!
# Whole numbers and doubles

A double that is a whole number comes back when this whole number is rounded to a double. A whole
number from `2 ^ 63` on stays at least that large when it is rounded.

## Main definitions

* `CardTable.Double.significand`, `CardTable.Double.shift` — the two parts of a magnitude.

## Main results

* `CardTable.Double.nearestPlace_eq` — a magnitude that a double has is rounded to its place.
* `CardTable.Double.exists_ofInt?_of_toInt?` — from a double to its whole number and back.
* `CardTable.Double.exists_ofRatio?_of_lt` — a whole number of at most 53 bits is a double.
* `CardTable.Double.two_pow_le_of_toInt?` — rounding does not fall below a power of two.
-/

namespace CardTable.Double

/-! ## The parts of a magnitude -/

/-- The number of units in one as a power of two. -/
lemma one_eq : one = 2 ^ 1074 := rfl

/-- There are units in one. -/
lemma one_pos : 0 < one :=
  one_eq ▸ Nat.two_pow_pos 1074

/-- How often the significand at a place is doubled. -/
def shift (place : Nat) : Nat :=
  place / binade - 1

/-- The bits of the magnitude at a place, with the leading one. -/
def significand (place : Nat) : Nat :=
  place - shift place * binade

/-- A place in terms of its two parts. -/
lemma shift_mul_add_significand (place : Nat) :
    shift place * binade + significand place = place := by
  have hle : shift place * binade ≤ place :=
    Nat.le_trans (Nat.mul_le_mul_right _ (Nat.sub_le ..)) (Nat.div_mul_le_self ..)
  unfold significand
  omega

/-- A magnitude in terms of its two parts. -/
lemma unitsAt_eq (place : Nat) : unitsAt place = significand place * 2 ^ shift place := by
  unfold unitsAt
  split
  · next hsmall =>
    have hshift : shift place = 0 := by simp [shift, Nat.div_eq_of_lt hsmall]
    simp [significand, hshift]
  · next hlarge =>
    have hdiv : 1 ≤ place / binade := (Nat.one_le_div_iff (by decide)).2 (by omega)
    have hsplit : place / binade * binade + place % binade = place := Nat.div_add_mod' ..
    have hstep : (place / binade - 1) * binade + binade = place / binade * binade := by
      rw [← Nat.succ_mul, Nat.succ_eq_add_one, Nat.sub_add_cancel hdiv]
    have hsignificand : significand place = binade + place % binade := by
      unfold significand shift
      omega
    rw [hsignificand]
    rfl

/-- A significand has at most 53 bits. -/
lemma significand_lt (place : Nat) : significand place < 2 ^ 53 := by
  unfold significand shift binade
  omega

/-- Above the smallest doubles the leading bit is set. -/
lemma le_significand {place : Nat} (h : shift place ≠ 0) : 2 ^ 52 ≤ significand place := by
  unfold shift binade at h
  unfold significand shift binade
  omega

/-- Rounding shifts a magnitude by as much as its place says. -/
lemma log2_unitsAt (place : Nat) : (unitsAt place).log2 - 52 = shift place := by
  rw [unitsAt_eq]
  have hlt := significand_lt place
  by_cases hshift : shift place = 0
  · rw [hshift, Nat.pow_zero, Nat.mul_one]
    by_cases hzero : significand place = 0
    · simp [hzero]
    · have hlog : (significand place).log2 < 53 := (Nat.log2_lt hzero).2 hlt
      omega
  · have hle := le_significand hshift
    have hpos : 0 < 2 ^ shift place := Nat.two_pow_pos _
    have hne : significand place * 2 ^ shift place ≠ 0 :=
      Nat.mul_ne_zero (by omega) (Nat.ne_of_gt hpos)
    have hlog : (significand place * 2 ^ shift place).log2 = 52 + shift place := by
      rw [Nat.log2_eq_iff hne, Nat.pow_add, Nat.add_right_comm, Nat.pow_add]
      exact ⟨Nat.mul_le_mul_right _ hle, Nat.mul_lt_mul_of_pos_right hlt hpos⟩
    omega

/-! ## Rounding what needs no rounding -/

/-- A fraction that is the magnitude at a place is rounded to this place. -/
theorem nearestPlace_eq {num den place : Nat} (hden : 0 < den)
    (h : num * one = unitsAt place * den) : nearestPlace num den = place := by
  have hquotient : num * one / den = unitsAt place := by rw [h, Nat.mul_div_cancel _ hden]
  have hround : roundHalfEven (num * one) (den * Nat.pow 2 (shift place)) = significand place := by
    have hsplit : num * one = significand place * (den * 2 ^ shift place) := by
      rw [h, unitsAt_eq, Nat.mul_assoc, Nat.mul_comm (2 ^ shift place)]
    rw [hsplit]
    exact roundHalfEven_mul_right _ _ (Nat.mul_pos hden (Nat.two_pow_pos _))
  calc nearestPlace num den
      = ((num * one / den).log2 - 52) * binade +
          roundHalfEven (num * one) (den * Nat.pow 2 ((num * one / den).log2 - 52)) := rfl
    _ = shift place * binade + significand place := by
        rw [hquotient, log2_unitsAt, hround]
    _ = place := shift_mul_add_significand place

/-- Only the place zero has the magnitude zero. -/
lemma place_eq_zero_of_unitsAt {place : Nat} (h : unitsAt place = 0) : place = 0 := by
  rw [unitsAt_eq] at h
  have hsignificand : significand place = 0 :=
    (Nat.mul_eq_zero.1 h).resolve_right (Nat.ne_of_gt (Nat.two_pow_pos _))
  rcases Nat.eq_zero_or_pos (shift place) with hshift | hpos
  · rw [← shift_mul_add_significand place, hshift, hsignificand, Nat.zero_mul]
  · have hle := le_significand (Nat.ne_of_gt hpos)
    omega

/-- **A double that is a whole number** is the double that this number is rounded to, up to the
sign of zero.

**Proof sketch.** The nearest place to a magnitude that a double has is the place of this double
(`nearestPlace_eq`), and the sign is that of the number unless this is zero. -/
theorem exists_ofInt?_of_toInt? {x : Double} {n : Int} (h : x.toInt? = some n) :
    ∃ y, ofInt? n = some y ∧ y.place = x.place ∧ (y.negative = x.negative ∨ x.place = 0) := by
  unfold toInt? at h
  split at h
  · next hwhole =>
    have hn : (if x.negative then -((x.units / one : Nat) : Int) else (x.units / one : Nat)) = n :=
      Option.some.inj h
    have habs : n.natAbs = x.units / one := by
      rw [← hn]
      generalize x.units / one = k
      split
      · rw [Int.natAbs_neg, Int.natAbs_natCast]
      · rw [Int.natAbs_natCast]
    have hunits : n.natAbs * one = unitsAt x.place * 1 := by
      rw [habs, Nat.div_mul_cancel (Nat.dvd_of_mod_eq_zero hwhole), Nat.mul_one]
      rfl
    have hplace : nearestPlace n.natAbs 1 = x.place := nearestPlace_eq (by decide) hunits
    refine ⟨⟨decide (n < 0), x.place, x.place_lt⟩, ?_, rfl, ?_⟩
    · simp only [ofInt?, ofRatio?, hplace, x.place_lt, dif_pos]
    · by_cases hzero : n = 0
      · right
        refine place_eq_zero_of_unitsAt ?_
        rw [hzero] at hunits
        simpa using hunits.symm
      · left
        cases hneg : x.negative with
        | true =>
          simp only [hneg, if_true] at hn
          simp
          omega
        | false =>
          simp only [hneg, Bool.false_eq_true, if_false] at hn
          simp
          omega
  · cases h

/-- Both zeros are the whole number zero. -/
lemma toInt?_of_isZero {x : Double} (h : x.isZero = true) : x.toInt? = some 0 := by
  have hunits : x.units = 0 := by rw [units, beq_iff_eq.1 h, unitsAt, if_pos (by decide)]
  cases hnegative : x.negative <;>
    simp only [toInt?, hunits, hnegative, Nat.zero_mod, Nat.zero_div, if_true] <;> rfl

/-! ## Small whole numbers -/

/-- A whole number of at most 53 bits is the magnitude of the double that it is rounded to. -/
lemma unitsAt_nearestPlace_of_lt {n : Nat} (h : n < 2 ^ 53) :
    unitsAt (nearestPlace n 1) = n * one ∧ nearestPlace n 1 < placeLimit := by
  rcases Nat.eq_zero_or_pos n with rfl | hpos
  · have hzero : nearestPlace 0 1 = 0 := nearestPlace_eq (by decide) (by rw [Nat.zero_mul]; rfl)
    rw [hzero, Nat.zero_mul]
    exact ⟨rfl, by decide⟩
  have hlog : n.log2 < 53 := (Nat.log2_lt (Nat.ne_of_gt hpos)).2 h
  have hlow : 2 ^ n.log2 ≤ n := Nat.log2_self_le (Nat.ne_of_gt hpos)
  have hhigh : n < 2 ^ (n.log2 + 1) := Nat.lt_log2_self
  -- the leading bit of the number is moved to the leading bit of the significand
  obtain ⟨bits, hbits⟩ : ∃ bits, bits = n * 2 ^ (52 - n.log2) := ⟨_, rfl⟩
  obtain ⟨place, hplace⟩ : ∃ place, place = (n.log2 + 1022) * binade + bits := ⟨_, rfl⟩
  have hleast : binade ≤ bits := by
    have hexp : n.log2 + (52 - n.log2) = 52 := by omega
    have hmul := Nat.mul_le_mul_right (2 ^ (52 - n.log2)) hlow
    rwa [← Nat.pow_add, hexp, ← hbits] at hmul
  have hmost : bits < 2 * binade := by
    have hexp : n.log2 + 1 + (52 - n.log2) = 53 := by omega
    have hmul := Nat.mul_lt_mul_of_pos_right hhigh (Nat.two_pow_pos (52 - n.log2))
    rwa [← Nat.pow_add, hexp, ← hbits] at hmul
  have hshift : shift place = n.log2 + 1022 := by
    unfold shift
    unfold binade at *
    omega
  have hsignificand : significand place = bits := by
    rw [significand, hshift, hplace, Nat.add_sub_cancel_left]
  have hunits : unitsAt place = n * one := by
    have hexp : 52 - n.log2 + (n.log2 + 1022) = 1074 := by omega
    rw [unitsAt_eq, hshift, hsignificand, hbits, Nat.mul_assoc, ← Nat.pow_add, hexp, one_eq]
  rw [nearestPlace_eq (by decide) (show n * one = unitsAt place * 1 by rw [hunits, Nat.mul_one])]
  refine ⟨hunits, ?_⟩
  unfold placeLimit
  unfold binade at *
  omega

/-- **A whole number of at most 53 bits** is a double. -/
theorem exists_ofRatio?_of_lt {n : Nat} (h : n < 2 ^ 53) :
    ∃ x, ofRatio? false n 1 = some x ∧ x.toInt? = some (n : Int) := by
  obtain ⟨hunits, hplace⟩ := unitsAt_nearestPlace_of_lt h
  refine ⟨⟨false, nearestPlace n 1, hplace⟩, by rw [ofRatio?, dif_pos hplace], ?_⟩
  simp only [toInt?, units, hunits, Nat.mul_mod_left, Nat.mul_div_cancel _ one_pos, if_true,
    Bool.false_eq_true, if_false]

/-! ## Rounding large whole numbers -/

/-- A quotient is not rounded below its floor. -/
lemma div_le_roundHalfEven (num den : Nat) : num / den ≤ roundHalfEven num den := by
  unfold roundHalfEven
  dsimp only
  split
  · exact Nat.le_refl _
  · split <;> omega

/-- A quotient is not rounded beyond the next whole number. -/
lemma roundHalfEven_le (num den : Nat) : roundHalfEven num den ≤ num / den + 1 := by
  unfold roundHalfEven
  dsimp only
  split
  · exact Nat.le_succ _
  · split <;> omega

/-- The place of the double nearest to a whole number, in terms of its leading bit. -/
lemma nearestPlace_one (num : Nat) :
    nearestPlace num 1 = ((num * one).log2 - 52) * binade +
      roundHalfEven (num * one) (2 ^ ((num * one).log2 - 52)) := by
  rw [nearestPlace, Nat.div_one, Nat.one_mul]
  rfl

/-- A whole number that is not too large is rounded to a finite double. -/
lemma nearestPlace_lt {num k : Nat} (h : num < 2 ^ k) (hk : k ≤ 1023) :
    nearestPlace num 1 < placeLimit := by
  have hunits : num * one < 2 ^ (k + 1074) := by
    rw [Nat.pow_add, ← one_eq]
    exact Nat.mul_lt_mul_of_pos_right h one_pos
  rw [nearestPlace_one]
  generalize num * one = units at hunits ⊢
  have hlog : units.log2 < k + 1074 := by
    rcases Nat.eq_zero_or_pos units with rfl | hpos
    · rw [Nat.log2_zero]
      omega
    · exact (Nat.log2_lt (Nat.ne_of_gt hpos)).2 hunits
  have hquotient : units / 2 ^ (units.log2 - 52) < 2 * binade := by
    refine (Nat.div_lt_iff_lt_mul (Nat.two_pow_pos _)).2 ?_
    have htop : units < 2 ^ (units.log2 + 1) := Nat.lt_log2_self
    have hexp : 2 ^ (units.log2 + 1) ≤ 2 ^ (53 + (units.log2 - 52)) :=
      Nat.pow_le_pow_right (by decide) (by omega)
    rw [Nat.pow_add 2 53] at hexp
    exact Nat.lt_of_lt_of_le htop hexp
  have hround := roundHalfEven_le units (2 ^ (units.log2 - 52))
  have hshift : (units.log2 - 52) * binade ≤ 2044 * binade := Nat.mul_le_mul_right _ (by omega)
  have hlimit : placeLimit = 2047 * binade := rfl
  have hbinade : 0 < binade := by decide
  omega

/-- A whole number below `2 ^ 1023` is rounded to a finite double. -/
lemma exists_ofInt?_of_lt {n : Int} (h : n.natAbs < 2 ^ 1023) : ∃ x, ofInt? n = some x := by
  have hplace := nearestPlace_lt h (Nat.le_refl _)
  exact ⟨⟨decide (n < 0), _, hplace⟩, by rw [ofInt?, ofRatio?, dif_pos hplace]⟩

/-- The place of a rounded whole number is in the binade of its leading bit, or behind it. -/
lemma shift_le_nearestPlace {num : Nat} (h : num ≠ 0) :
    (num * one).log2 - 52 ≤ shift (nearestPlace num 1) := by
  have hne : num * one ≠ 0 := Nat.mul_ne_zero h (Nat.ne_of_gt one_pos)
  have hplace := nearestPlace_one num
  generalize num * one = units at hne hplace ⊢
  by_cases hsmall : units.log2 < 52
  · omega
  · have hself : 2 ^ units.log2 ≤ units := Nat.log2_self_le hne
    have hsplit : binade * 2 ^ (units.log2 - 52) = 2 ^ units.log2 := by
      have hexp : 52 + (units.log2 - 52) = units.log2 := by omega
      rw [show binade = 2 ^ 52 from rfl, ← Nat.pow_add, hexp]
    have hquotient : binade ≤ units / 2 ^ (units.log2 - 52) := by
      exact (Nat.le_div_iff_mul_le (Nat.two_pow_pos _)).2 (hsplit ▸ hself)
    have hround := div_le_roundHalfEven units (2 ^ (units.log2 - 52))
    unfold shift
    have hdiv : units.log2 - 52 + 1 ≤ nearestPlace num 1 / binade := by
      refine (Nat.le_div_iff_mul_le (by decide)).2 ?_
      rw [hplace, Nat.succ_mul]
      exact Nat.add_le_add_left (Nat.le_trans hquotient hround) _
    omega

/-- Rounding does not fall below a power of two. -/
lemma two_pow_le_unitsAt_nearestPlace {num k : Nat} (h : 2 ^ k ≤ num) :
    2 ^ k * one ≤ unitsAt (nearestPlace num 1) := by
  have hpos : 0 < num := Nat.lt_of_lt_of_le (Nat.two_pow_pos k) h
  have hle : 2 ^ (k + 1074) ≤ num * one := by
    rw [one_eq, Nat.pow_add]
    exact Nat.mul_le_mul_right _ h
  have hne : num * one ≠ 0 := Nat.mul_ne_zero (Nat.ne_of_gt hpos) (Nat.ne_of_gt one_pos)
  have hlog : k + 1074 ≤ (num * one).log2 := (Nat.le_log2 hne).2 hle
  have hshift : k + 1022 ≤ shift (nearestPlace num 1) := by
    have hstep := shift_le_nearestPlace (Nat.ne_of_gt hpos)
    omega
  have hsignificand : 2 ^ 52 ≤ significand (nearestPlace num 1) := le_significand (by omega)
  calc 2 ^ k * one
      = 2 ^ 52 * 2 ^ (k + 1022) := by
        have hexp : k + 1074 = 52 + (k + 1022) := by omega
        rw [one_eq, ← Nat.pow_add, ← Nat.pow_add, hexp]
    _ ≤ significand (nearestPlace num 1) * 2 ^ shift (nearestPlace num 1) :=
        Nat.mul_le_mul hsignificand (Nat.pow_le_pow_right (by decide) hshift)
    _ = unitsAt (nearestPlace num 1) := (unitsAt_eq _).symm

/-- The double that a large whole number is rounded to is large, and it has the given sign. -/
lemma le_units_of_ofRatio? {negative : Bool} {num k : Nat} {x : Double} (h : 2 ^ k ≤ num)
    (hx : ofRatio? negative num 1 = some x) : x.negative = negative ∧ 2 ^ k * one ≤ x.units := by
  unfold ofRatio? at hx
  dsimp only at hx
  split at hx
  · obtain rfl := Option.some.inj hx
    exact ⟨rfl, two_pow_le_unitsAt_nearestPlace h⟩
  · cases hx

/-- **A large whole number** is not rounded to a smaller one than the power of two below it. -/
theorem two_pow_le_of_toInt? {n m : Int} {x : Double} {k : Nat} (h : 2 ^ k ≤ n)
    (hx : ofInt? n = some x) (hm : x.toInt? = some m) : 2 ^ k ≤ m := by
  have hpos : (0 : Int) ≤ n := Int.le_trans (Int.pow_nonneg (by decide)) h
  obtain ⟨num, rfl⟩ := Int.eq_ofNat_of_zero_le hpos
  have hnum : 2 ^ k ≤ num := by exact_mod_cast h
  simp only [ofInt?, ofRatio?, Int.natAbs_natCast] at hx
  split at hx
  · obtain rfl := Option.some.inj hx
    have hunits := two_pow_le_unitsAt_nearestPlace hnum
    have hnonneg : ¬ ((num : Int) < 0) := by omega
    simp only [toInt?, decide_eq_false hnonneg, units] at hm
    split at hm
    · obtain rfl := Option.some.inj hm
      have hquotient : 2 ^ k ≤ unitsAt (nearestPlace num 1) / one :=
        (Nat.le_div_iff_mul_le one_pos).2 hunits
      have hcast : (2 : Int) ^ k ≤ ((unitsAt (nearestPlace num 1) / one : Nat) : Int) := by
        exact_mod_cast hquotient
      rw [if_neg Bool.false_ne_true]
      exact hcast
    · cases hm
  · cases hx

end CardTable.Double
