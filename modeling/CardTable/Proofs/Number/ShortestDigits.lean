import Mathlib.Order.Monotone.Basic
import Mathlib.Tactic.Linarith
import Mathlib.Tactic.Ring
import CardTable.Proofs.Json.Tokens

set_option autoImplicit false

/-!
# The shortest digits round to their double

Of seventeen digits there are always some with which a decimal number lies in the interval around a
double: decimal numbers with seventeen digits are closer to each other than doubles of their
magnitude. So the search for the shortest digits ends, and the decimal number that it finds rounds
to the double.

## Main definitions

* `CardTable.Double.gridStep`, `CardTable.Double.gridScale` — the decimal numbers with a given
  number of digits, as multiples of a fraction.
* `CardTable.Decimal.numerator`, `CardTable.Decimal.denominator` — a decimal number as a fraction.

## Main results

* `CardTable.Double.withDigits?_seventeen` — seventeen digits suffice.
* `CardTable.Double.shortest_roundsTo` — the shortest digits round to their double.
* `CardTable.Double.shortest_whole` — the shortest digits of a whole number write it.
* `CardTable.Double.two_pow_le_of_roundsTo` — those of a large double write no small number.
-/

namespace CardTable

/-! ## Powers of ten -/

/-- Digits are as many as the power of ten above the number says. -/
lemma lt_pow_digitCount (n : Nat) : n < 10 ^ digitCount n :=
  (Nat.length_toDigits_le_iff (by decide) Nat.length_toDigits_pos).1 (Nat.le_refl _)

/-- A number has as many digits as the powers of ten around it say. -/
lemma digitCount_eq {n count : Nat} (hlow : 10 ^ count ≤ n) (hhigh : n < 10 ^ (count + 1)) :
    digitCount n = count + 1 := by
  refine Nat.le_antisymm
    ((Nat.length_toDigits_le_iff (by decide) (Nat.succ_pos _)).2 hhigh) ?_
  exact (Nat.pow_lt_pow_iff_right (by decide)).1 (Nat.lt_of_le_of_lt hlow (lt_pow_digitCount n))

/-- The power of ten below a number. -/
lemma pow_digitCount_le {n : Nat} (h : 0 < n) : 10 ^ (digitCount n - 1) ≤ n := by
  rcases Nat.eq_zero_or_pos (digitCount n - 1) with hzero | hpos
  · rwa [hzero, Nat.pow_zero]
  · refine Nat.le_of_not_lt fun hlt => ?_
    have hcount : digitCount n ≤ digitCount n - 1 :=
      (Nat.length_toDigits_le_iff (by decide) hpos).2 hlt
    omega

/-- An exponent may be moved from one side to the other. -/
lemma pow_move (e : Int) (n : Nat) :
    10 ^ (e + n).toNat * 10 ^ (-e).toNat = 10 ^ n * 10 ^ e.toNat * 10 ^ (-(e + n)).toNat := by
  rw [← Nat.pow_add, ← Nat.pow_add, ← Nat.pow_add]
  congr 1
  omega

/-- Comparisons are the same on both sides. -/
lemma mul_pow_le_mul_pow_iff (e : Int) (n a b : Nat) :
    a * 10 ^ (e + n).toNat ≤ b * 10 ^ (-(e + n)).toNat ↔
      10 ^ n * (a * 10 ^ e.toNat) ≤ b * 10 ^ (-e).toNat := by
  have hpow : ∀ m, 0 < 10 ^ m := fun m => Nat.pow_pos (by decide)
  have hleft : a * 10 ^ (e + n).toNat * 10 ^ (-e).toNat =
      10 ^ n * (a * 10 ^ e.toNat) * 10 ^ (-(e + n)).toNat := by
    rw [Nat.mul_assoc, pow_move]
    ring
  calc a * 10 ^ (e + n).toNat ≤ b * 10 ^ (-(e + n)).toNat
      ↔ a * 10 ^ (e + n).toNat * 10 ^ (-e).toNat ≤
          b * 10 ^ (-(e + n)).toNat * 10 ^ (-e).toNat := (Nat.mul_le_mul_right_iff (hpow _)).symm
    _ ↔ 10 ^ n * (a * 10 ^ e.toNat) * 10 ^ (-(e + n)).toNat ≤
          b * 10 ^ (-e).toNat * 10 ^ (-(e + n)).toNat := by
        rw [hleft, Nat.mul_right_comm b]
    _ ↔ 10 ^ n * (a * 10 ^ e.toNat) ≤ b * 10 ^ (-e).toNat := Nat.mul_le_mul_right_iff (hpow _)

/-- A decimal number as a fraction: its numerator. -/
def Decimal.numerator (d : Decimal) : Nat :=
  d.digits * 10 ^ (d.point - digitCount d.digits).toNat

/-- The denominator of the fraction. -/
def Decimal.denominator (d : Decimal) : Nat :=
  10 ^ (-(d.point - digitCount d.digits)).toNat

/-- A decimal number without digits behind the point is whole. -/
lemma Decimal.denominator_eq_one {d : Decimal} (h : (digitCount d.digits : Int) ≤ d.point) :
    d.denominator = 1 := by
  rw [denominator, Int.toNat_of_nonpos (by omega), Nat.pow_zero]

namespace Double

/-! ## Neighbours -/

/-- The distance to the next double. -/
lemma unitsAt_succ (place : Nat) : unitsAt (place + 1) = unitsAt place + 2 ^ shift place := by
  have hplace := shift_mul_add_significand place
  have hnext := shift_mul_add_significand (place + 1)
  have hlt := significand_lt place
  rw [unitsAt_eq, unitsAt_eq]
  by_cases hsame : shift (place + 1) = shift place
  · have hsignificand : significand (place + 1) = significand place + 1 := by
      rw [hsame] at hnext
      omega
    rw [hsame, hsignificand, Nat.succ_mul]
  · -- the next double begins a binade
    have hshift : shift (place + 1) = shift place + 1 := by
      unfold shift binade at *
      omega
    have hbits : significand (place + 1) * 2 = significand place + 1 := by
      unfold significand shift binade at *
      omega
    rw [hshift, Nat.pow_succ, Nat.mul_comm (2 ^ _) 2, ← Nat.mul_assoc, hbits, Nat.succ_mul]

/-- Magnitudes ascend. -/
lemma monotone_unitsAt : Monotone unitsAt :=
  monotone_nat_of_le_succ fun place => unitsAt_succ place ▸ Nat.le_add_right _ _

/-- A magnitude has at most 53 bits in terms of the distance to the double before it. -/
lemma unitsAt_succ_le (place : Nat) : unitsAt (place + 1) ≤ 2 ^ 53 * 2 ^ shift place := by
  rw [unitsAt_succ, unitsAt_eq, ← Nat.succ_mul]
  exact Nat.mul_le_mul_right _ (significand_lt place)

section RoundsTo

variable {place n den n' den' : Nat}

/-- What rounds to a place lies between its edges. -/
lemma between_of_roundsTo (h : roundsTo place n den = true) :
    lowerEdge place * den ≤ n ∧ n ≤ upperEdge place * den := by
  unfold roundsTo at h
  split at h
  · simpa only [Bool.and_eq_true, decide_eq_true_eq] using h
  · simp only [Bool.and_eq_true, decide_eq_true_eq] at h
    exact ⟨Nat.le_of_lt h.1, Nat.le_of_lt h.2⟩

/-- What lies between the edges of a place rounds to it. -/
lemma roundsTo_of_between (hlow : lowerEdge place * den < n) (hhigh : n < upperEdge place * den) :
    roundsTo place n den = true := by
  unfold roundsTo
  split
  · simp [Nat.le_of_lt hlow, Nat.le_of_lt hhigh]
  · simp [hlow, hhigh]

/-- Rounding depends on the value of a fraction only. -/
lemma roundsTo_congr (hden : 0 < den) (hden' : 0 < den') (h : n * den' = n' * den) :
    roundsTo place n den = roundsTo place n' den' := by
  have hscale : ∀ {edge : Nat}, (edge * den ≤ n ↔ edge * den' ≤ n') ∧
      (n ≤ edge * den ↔ n' ≤ edge * den') := by
    intro edge
    constructor
    · rw [← Nat.mul_le_mul_right_iff hden', h, Nat.mul_right_comm, Nat.mul_le_mul_right_iff hden]
    · rw [← Nat.mul_le_mul_right_iff hden', h, Nat.mul_right_comm, Nat.mul_le_mul_right_iff hden]
  unfold roundsTo
  simp only [← Nat.not_le, hscale.1, hscale.2]

/-- **A fraction near to a magnitude** rounds to its place: the distance is less than half of that
to the next double on either side. -/
theorem roundsTo_of_near (hlow : 2 * unitsAt (place + 1) * den < n + 2 ^ shift place * den)
    (hhigh : n < 2 * unitsAt (place + 1) * den + 2 ^ shift place * den) :
    roundsTo (place + 1) n den = true := by
  have hshift : shift place ≤ shift (place + 1) := by
    unfold shift
    exact Nat.sub_le_sub_right (Nat.div_le_div_right (Nat.le_succ _)) 1
  have hbefore : 2 * unitsAt (place + 1) = lowerEdge (place + 1) + 2 ^ shift place := by
    rw [lowerEdge, Nat.add_sub_cancel, unitsAt_succ place]
    ring
  have hbehind : upperEdge (place + 1) = 2 * unitsAt (place + 1) + 2 ^ shift (place + 1) := by
    rw [upperEdge, unitsAt_succ (place + 1)]
    ring
  refine roundsTo_of_between ?_ (Nat.lt_of_lt_of_le hhigh ?_)
  · rw [hbefore, Nat.add_mul] at hlow
    exact Nat.lt_of_add_lt_add_right hlow
  · rw [hbehind, ← Nat.add_mul]
    exact Nat.mul_le_mul_right _ (Nat.add_le_add_left (Nat.pow_le_pow_right (by decide) hshift) _)

end RoundsTo

/-! ## The grid of decimal numbers -/

/-- The decimal numbers with `count` digits behind a power of ten are the multiples of the fraction
`gridStep / gridScale` of half a unit. -/
def gridStep (point : Int) (count : Nat) : Nat :=
  2 * one * Nat.pow 10 (point - count).toNat

/-- The denominator of the fraction. -/
def gridScale (point : Int) (count : Nat) : Nat :=
  Nat.pow 10 (count - point).toNat

/-- The scale of the grid is the power of ten for the digits behind the point. -/
lemma gridScale_eq (point : Int) (count : Nat) :
    gridScale point count = 10 ^ (-(point - count)).toNat := by
  rw [gridScale, Int.neg_sub]
  rfl

/-- The numbers of the grid are apart. -/
lemma gridStep_pos (point : Int) (count : Nat) : 0 < gridStep point count :=
  Nat.mul_pos (Nat.mul_pos (by decide) one_pos) (Nat.pow_pos (by decide))

/-- The decimal point of a magnitude stands between the powers of ten around it. -/
lemma pointOf_spec {halves : Nat} (h : 0 < halves) :
    2 * one * 10 ^ (pointOf halves - 1).toNat ≤ halves * 10 ^ (-(pointOf halves - 1)).toNat ∧
      halves * 10 ^ (-pointOf halves).toNat < 2 * one * 10 ^ (pointOf halves).toNat := by
  have htwo : 0 < 2 * one := Nat.mul_pos (by decide) one_pos
  unfold pointOf
  generalize 2 * one = whole at htwo ⊢
  split
  · next hle =>
    have hpos : 0 < halves / whole := Nat.div_pos hle htwo
    have hcount : 0 < digitCount (halves / whole) := Nat.length_toDigits_pos
    have hlow := pow_digitCount_le hpos
    have hhigh := lt_pow_digitCount (halves / whole)
    generalize digitCount (halves / whole) = count at hcount hlow hhigh
    have hfirst : ((count : Int) - 1).toNat = count - 1 ∧ (-((count : Int) - 1)).toNat = 0 ∧
        (-(count : Int)).toNat = 0 ∧ (count : Int).toNat = count := by omega
    obtain ⟨h₁, h₂, h₃, h₄⟩ := hfirst
    rw [h₁, h₂, h₃, h₄, Nat.pow_zero, Nat.mul_one, Nat.mul_comm whole, Nat.mul_comm whole]
    exact ⟨(Nat.le_div_iff_mul_le htwo).1 hlow, (Nat.div_lt_iff_lt_mul htwo).1 hhigh⟩
  · next hlt =>
    have hpos : 0 < (whole - 1) / halves := Nat.div_pos (by omega) h
    have hlow := pow_digitCount_le hpos
    have hhigh := lt_pow_digitCount ((whole - 1) / halves)
    have hcount : 0 < digitCount ((whole - 1) / halves) := Nat.length_toDigits_pos
    generalize digitCount ((whole - 1) / halves) = count at hcount hlow hhigh
    have hfirst : (1 - (count : Int) - 1).toNat = 0 ∧ (-(1 - (count : Int) - 1)).toNat = count ∧
        (-(1 - (count : Int))).toNat = count - 1 ∧ (1 - (count : Int)).toNat = 0 := by omega
    obtain ⟨h₁, h₂, h₃, h₄⟩ := hfirst
    rw [h₁, h₂, h₃, h₄, Nat.pow_zero, Nat.mul_one, Nat.mul_comm halves, Nat.mul_comm halves]
    have hbelow := (Nat.le_div_iff_mul_le h).1 hlow
    have habove := (Nat.div_lt_iff_lt_mul h).1 hhigh
    omega

/-- The grid that is searched has the magnitude between its powers of ten. -/
lemma grid_spec {halves : Nat} (h : 0 < halves) (count : Nat) :
    10 ^ count * gridStep (pointOf halves) (count + 1) ≤
        halves * gridScale (pointOf halves) (count + 1) ∧
      halves * gridScale (pointOf halves) (count + 1) <
        10 ^ (count + 1) * gridStep (pointOf halves) (count + 1) := by
  obtain ⟨hlow, hhigh⟩ := pointOf_spec h
  rw [gridStep, gridScale_eq]
  generalize pointOf halves = point at hlow hhigh ⊢
  generalize 2 * one = whole at hlow hhigh ⊢
  have hbefore := mul_pow_le_mul_pow_iff (point - (count + 1 : Nat)) count whole halves
  have hbehind := mul_pow_le_mul_pow_iff (point - (count + 1 : Nat)) (count + 1) whole halves
  have hpoint : point - ((count + 1 : Nat) : Int) + count = point - 1 := by omega
  rw [hpoint] at hbefore
  rw [Int.sub_add_cancel] at hbehind
  exact ⟨hbefore.1 hlow, Nat.lt_of_not_le fun hle => Nat.not_le.2 hhigh (hbehind.2 hle)⟩

/-! ## The search on the grid -/

section Search

variable {tie : Tie} {place count more digits n : Nat} {point : Int}

/-- The point of the grid below a magnitude. -/
def gridFloor (place : Nat) (point : Int) (count : Nat) : Nat :=
  2 * unitsAt place * gridScale point count / gridStep point count

/-- Whether the point `n` of the grid rounds to the place. -/
def gridHits (place : Nat) (point : Int) (count n : Nat) : Bool :=
  roundsTo place (n * gridStep point count) (gridScale point count)

/-- The search looks at the two points of the grid around a magnitude. -/
lemma exists_withDigits? (tie : Tie) (place : Nat) (point : Int) (count : Nat) :
    let low := gridFloor place point count
    ∃ n, (n = low ∨ n = low + 1) ∧ withDigits? tie place point count =
      if gridHits place point count low && gridHits place point count (low + 1) then some n
      else if gridHits place point count low then some low
      else if gridHits place point count (low + 1) then some (low + 1)
      else none := by
  intro low
  -- the nearer point is chosen, and one of them where both are equally near
  have hchoice : ∀ below above tied : Nat, (tied = low ∨ tied = low + 1) →
      ∃ n, (n = low ∨ n = low + 1) ∧
        (if below < above then some low
        else if above < below then some (low + 1)
        else some tied) = some n := by
    intro below above tied htied
    split
    · exact ⟨low, .inl rfl, rfl⟩
    split
    · exact ⟨low + 1, .inr rfl, rfl⟩
    · exact ⟨tied, htied, rfl⟩
  have hnearer := hchoice
    (2 * unitsAt place * gridScale point count - low * gridStep point count)
    ((low + 1) * gridStep point count - 2 * unitsAt place * gridScale point count)
  cases tie with
  | even =>
    obtain ⟨n, hn, hchosen⟩ := hnearer (low + low % 2) (by omega)
    exact ⟨n, hn, hchosen ▸ rfl⟩
  | away =>
    obtain ⟨n, hn, hchosen⟩ := hnearer (low + 1) (.inr rfl)
    exact ⟨n, hn, hchosen ▸ rfl⟩

/-- What is found rounds to the place. -/
lemma of_withDigits? (h : withDigits? tie place point count = some n) :
    gridHits place point count n = true ∧
      (n = gridFloor place point count ∨ n = gridFloor place point count + 1) := by
  obtain ⟨m, hm, heq⟩ := exists_withDigits? tie place point count
  rw [heq] at h
  generalize gridFloor place point count = low at h hm ⊢
  split at h
  · next hboth =>
    obtain ⟨hlow, hhigh⟩ := Bool.and_eq_true_iff.1 hboth
    obtain rfl := Option.some.inj h
    rcases hm with rfl | rfl
    · exact ⟨hlow, .inl rfl⟩
    · exact ⟨hhigh, .inr rfl⟩
  split at h
  · next hlow => exact Option.some.inj h ▸ ⟨hlow, .inl rfl⟩
  split at h
  · next hhigh => exact Option.some.inj h ▸ ⟨hhigh, .inr rfl⟩
  · cases h

/-- Nothing is found only if neither point rounds to the place. -/
lemma withDigits?_ne_none (h : gridHits place point count (gridFloor place point count) = true ∨
    gridHits place point count (gridFloor place point count + 1) = true) :
    withDigits? tie place point count ≠ none := by
  obtain ⟨m, -, heq⟩ := exists_withDigits? tie place point count
  rw [heq]
  generalize gridFloor place point count = low at h ⊢
  rcases h with h | h
  · cases gridHits place point count (low + 1) <;> simp [h]
  · cases gridHits place point count low <;> simp [h]

/-- **Seventeen digits suffice**: the grid is finer than the doubles are.

**Proof sketch.** A step of the grid of seventeen digits is shorter than twice the distance to the
double in front, because `10 ^ 16` is more than `2 ^ 53`. So one of the two grid points around the
double is near enough to it to be rounded to it (`roundsTo_of_near`). -/
theorem withDigits?_seventeen (tie : Tie) (place : Nat) :
    withDigits? tie (place + 1) (pointOf (2 * unitsAt (place + 1))) 17 ≠ none := by
  have hpos : 0 < 2 * unitsAt (place + 1) := Nat.mul_pos (by decide) (unitsAt_pos (Nat.succ_pos _))
  obtain ⟨hgrid, -⟩ := grid_spec hpos 16
  have hunits := unitsAt_succ_le place
  refine withDigits?_ne_none ?_
  unfold gridHits gridFloor
  have hstep := gridStep_pos (pointOf (2 * unitsAt (place + 1))) 17
  generalize gridStep (pointOf (2 * unitsAt (place + 1))) 17 = step at hgrid hstep ⊢
  generalize gridScale (pointOf (2 * unitsAt (place + 1))) 17 = scale at hgrid ⊢
  -- the points of the grid are closer to each other than the double is to the one before it
  have hfine : step < 2 * (2 ^ shift place * scale) := by
    have hbound : 10 ^ 16 * step ≤ 2 ^ 53 * (2 * (2 ^ shift place * scale)) :=
      calc 10 ^ 16 * step
          ≤ 2 * unitsAt (place + 1) * scale := hgrid
        _ = unitsAt (place + 1) * (2 * scale) := by ring
        _ ≤ 2 ^ 53 * 2 ^ shift place * (2 * scale) := Nat.mul_le_mul_right _ hunits
        _ = 2 ^ 53 * (2 * (2 ^ shift place * scale)) := by ring
    generalize 2 * (2 ^ shift place * scale) = fine at hbound ⊢
    omega
  have hlow := Nat.div_mul_le_self (2 * unitsAt (place + 1) * scale) step
  have hhigh := Nat.lt_div_mul_add hstep (a := 2 * unitsAt (place + 1) * scale)
  generalize 2 * unitsAt (place + 1) * scale / step = low at hlow hhigh ⊢
  rw [Nat.succ_mul]
  by_cases hnear : 2 * (2 * unitsAt (place + 1) * scale) ≤ 2 * (low * step) + step
  · exact .inl (roundsTo_of_near (by omega) (by omega))
  · exact .inr (roundsTo_of_near (by omega) (by omega))

/-- The search ends with the first number of digits at which something is found. -/
lemma of_firstHit (h : firstHit tie place point count more = some (digits, n)) :
    count ≤ n ∧ withDigits? tie place point n = some digits ∧
      ∀ m, count ≤ m → withDigits? tie place point m ≠ none → n ≤ m := by
  induction more generalizing count with
  | zero => cases h
  | succ more ih =>
    unfold firstHit at h
    split at h
    · next hdigits =>
      obtain ⟨rfl, rfl⟩ := Prod.mk.inj (Option.some.inj h)
      exact ⟨Nat.le_refl _, hdigits, fun _ hm _ => hm⟩
    · next hnone =>
      obtain ⟨hle, hfound, hfirst⟩ := ih h
      refine ⟨Nat.le_of_succ_le hle, hfound, fun m hm hsome => ?_⟩
      rcases Nat.eq_or_lt_of_le hm with rfl | hlt
      · exact absurd hnone hsome
      · exact hfirst m hlt hsome

/-- The search ends if something is found at one of the numbers of digits. -/
lemma firstHit_ne_none (hlow : count ≤ n) (hhigh : n < count + more)
    (h : withDigits? tie place point n ≠ none) :
    firstHit tie place point count more ≠ none := by
  induction more generalizing count with
  | zero => omega
  | succ more ih =>
    unfold firstHit
    split
    · exact Option.some_ne_none _
    · next hnone =>
      rcases Nat.eq_or_lt_of_le hlow with rfl | hlt
      · exact absurd hnone h
      · exact ih hlt (by omega)

end Search

/-! ## The shortest digits -/

/-- A double of a positive magnitude is not zero. -/
lemma isZero_of_units_pos {x : Double} (h : 0 < x.units) : x.isZero = false := by
  rw [isZero, beq_eq_false_iff_ne]
  intro hplace
  rw [units, hplace, unitsAt, if_pos (by decide)] at h
  exact Nat.lt_irrefl 0 h

/-- A double other than zero has a double before it. -/
lemma exists_place {x : Double} (hx : x.isZero = false) : ∃ place, x.place = place + 1 :=
  Nat.exists_eq_succ_of_ne_zero (by simpa [isZero] using hx)

/-- The shortest digits are found on the grid, no more than are needed there; a carry out of the
first digit moves the point. -/
lemma exists_shortest (tie : Tie) {x : Double} (hx : x.isZero = false) :
    ∃ digits count, withDigits? tie x.place (pointOf (2 * x.units)) (count + 1) = some digits ∧
      (∀ m, withDigits? tie x.place (pointOf (2 * x.units)) (m + 1) ≠ none → count ≤ m) ∧
      x.shortest tie = if digits = 10 ^ (count + 1) then ⟨1, pointOf (2 * x.units) + 1⟩
        else ⟨digits, pointOf (2 * x.units)⟩ := by
  obtain ⟨place, hplace⟩ := exists_place hx
  have hseventeen := withDigits?_seventeen tie place
  have hunits : x.units = unitsAt (place + 1) := congrArg unitsAt hplace
  rw [← hunits, ← hplace] at hseventeen
  unfold shortest
  rw [hx, if_neg Bool.false_ne_true]
  dsimp only
  cases hfound : firstHit tie x.place (pointOf (2 * x.units)) 1 17 with
  | none => exact absurd hfound (firstHit_ne_none (by decide) (by decide) hseventeen)
  | some found =>
    obtain ⟨digits, n⟩ := found
    obtain ⟨hcount, hdigits, hfirst⟩ := of_firstHit hfound
    obtain ⟨count, rfl⟩ := Nat.exists_eq_succ_of_ne_zero (Nat.ne_of_gt hcount)
    exact ⟨digits, count, hdigits,
      fun m hm => Nat.le_of_succ_le_succ (hfirst _ (Nat.succ_pos m) hm), rfl⟩

/-- The digits that are found on the grid, as a decimal number: it has no more digits than the grid,
and it is the point of the grid. -/
lemma exists_decimal (tie : Tie) {x : Double} (hx : x.isZero = false) :
    ∃ count, (∀ m, withDigits? tie x.place (pointOf (2 * x.units)) (m + 1) ≠ none → count ≤ m) ∧
      pointOf (2 * x.units) - (count + 1 : Nat) ≤
        (x.shortest tie).point - digitCount (x.shortest tie).digits ∧
      roundsTo x.place (2 * one * (x.shortest tie).numerator) (x.shortest tie).denominator =
        true := by
  obtain ⟨place, hplace⟩ := exists_place hx
  have hpos : 0 < 2 * x.units :=
    Nat.mul_pos (by decide) (unitsAt_pos (hplace ▸ Nat.succ_pos place))
  obtain ⟨digits, count, hdigits, hfirst, hshortest⟩ := exists_shortest tie hx
  refine ⟨count, hfirst, ?_⟩
  obtain ⟨hrounds, hfloor⟩ := of_withDigits? hdigits
  have hstep := gridStep_pos (pointOf (2 * x.units)) (count + 1)
  -- the digits lie between the powers of ten around the magnitude
  obtain ⟨hlow, hhigh⟩ := grid_spec hpos count
  have hfloor_low : 10 ^ count ≤ gridFloor x.place (pointOf (2 * x.units)) (count + 1) :=
    (Nat.le_div_iff_mul_le hstep).2 hlow
  have hfloor_high : gridFloor x.place (pointOf (2 * x.units)) (count + 1) < 10 ^ (count + 1) :=
    (Nat.div_lt_iff_lt_mul hstep).2 hhigh
  unfold gridHits gridStep at hrounds
  rw [gridScale_eq] at hrounds
  rw [hshortest]
  generalize pointOf (2 * x.units) = point at hrounds
  split
  · next hcarry =>
    have hone : digitCount 1 = 1 := rfl
    rw [Decimal.numerator, Decimal.denominator, hone, Int.natCast_one, Int.add_sub_cancel,
      Nat.one_mul]
    refine ⟨by omega, Eq.trans ?_ hrounds⟩
    refine roundsTo_congr (Nat.pow_pos (by decide)) (Nat.pow_pos (by decide)) ?_
    have hmove := pow_move (point - (count + 1 : Nat)) (count + 1)
    rw [Int.sub_add_cancel] at hmove
    rw [hcarry, Nat.mul_assoc, hmove, Nat.pow_eq]
    generalize 2 * one = whole
    ring
  · next hcarry =>
    have hcount : digitCount digits = count + 1 := digitCount_eq (by omega) (by omega)
    rw [Decimal.numerator, Decimal.denominator, hcount]
    have hsame : 2 * one * (digits * 10 ^ (point - ((count + 1 : Nat) : Int)).toNat) =
        digits * (2 * one * Nat.pow 10 (point - ((count + 1 : Nat) : Int)).toNat) := by
      rw [Nat.mul_left_comm]
      rfl
    exact ⟨Int.le_refl _, by rwa [hsame]⟩

/-- **The shortest digits round to their double**, as a decimal number. -/
theorem shortest_roundsTo (tie : Tie) {x : Double} (hx : x.isZero = false) :
    roundsTo x.place (2 * one * (x.shortest tie).numerator) (x.shortest tie).denominator = true :=
  have ⟨_, _, _, hrounds⟩ := exists_decimal tie hx
  hrounds

/-! ## Whole doubles -/

/-- Doubles up to `2 ^ 53` are one apart at most. -/
lemma two_pow_shift_le {place : Nat} (h : unitsAt place < 2 ^ 53 * one) :
    2 ^ shift place ≤ one := by
  rcases Nat.eq_zero_or_pos (shift place) with hzero | hpos
  · rw [hzero]
    exact one_pos
  · have hbits := Nat.mul_le_mul_right (2 ^ shift place) (le_significand (Nat.ne_of_gt hpos))
    rw [← unitsAt_eq, ← Nat.pow_add] at hbits
    have hlt := Nat.lt_of_le_of_lt hbits h
    -- the exponent is kept closed, as the power is too large to be written out
    obtain ⟨k, hk⟩ : ∃ k, k = 1074 := ⟨_, rfl⟩
    rw [one_eq, ← hk] at hlt ⊢
    rw [← Nat.pow_add, Nat.pow_lt_pow_iff_right (by decide)] at hlt
    exact Nat.pow_le_pow_right (by decide) (by omega)

/-- **A whole number that rounds to another one** below `2 ^ 53` is the same.

**Proof sketch.** Below `2 ^ 53` neighbouring doubles are at most one apart, so that what rounds to
a whole number is at a distance of less than one from it. -/
theorem eq_of_roundsTo {place n i : Nat} (hi : i < 2 ^ 53) (hplace : unitsAt place = i * one)
    (h : roundsTo place (2 * one * n) 1 = true) : n = i := by
  obtain ⟨hlow, hhigh⟩ := between_of_roundsTo h
  have hlt : unitsAt place < 2 ^ 53 * one := by
    rw [hplace]
    exact Nat.mul_lt_mul_of_pos_right hi one_pos
  have hgap := two_pow_shift_le hlt
  have hbefore : 2 * unitsAt place ≤ lowerEdge place + one := by
    cases place with
    | zero =>
      rw [lowerEdge, Nat.zero_sub, Nat.two_mul]
      exact Nat.le_add_right (unitsAt 0 + unitsAt 0) one
    | succ place =>
      have hshift :=
        two_pow_shift_le (Nat.lt_of_le_of_lt (monotone_unitsAt (Nat.le_succ place)) hlt)
      have hsucc := unitsAt_succ place
      rw [lowerEdge, Nat.add_sub_cancel]
      omega
  have hbehind : upperEdge place ≤ 2 * unitsAt place + one := by
    rw [upperEdge, unitsAt_succ]
    omega
  rw [hplace] at hbefore hbehind
  rw [Nat.mul_one] at hlow hhigh
  have hpos := one_pos
  have habove : 2 * i * one ≤ (2 * n + 1) * one := by linarith
  have hbelow : 2 * n * one ≤ (2 * i + 1) * one := by linarith
  have hle := Nat.le_of_mul_le_mul_right habove hpos
  have hge := Nat.le_of_mul_le_mul_right hbelow hpos
  omega

/-- The decimal point of a whole number stands behind its digits. -/
lemma pointOf_whole {i : Nat} (hi : 0 < i) : pointOf (2 * (i * one)) = digitCount i := by
  have hsplit : 2 * (i * one) = i * (2 * one) := Nat.mul_left_comm ..
  have htwo : 0 < 2 * one := Nat.mul_pos (by decide) one_pos
  rw [pointOf, hsplit, if_pos (Nat.le_mul_of_pos_left _ hi), Nat.mul_div_cancel _ htwo]

/-- A whole number is found with its own digits. -/
lemma withDigits?_whole (tie : Tie) {place i : Nat}
    (hplace : unitsAt (place + 1) = i * one) :
    withDigits? tie (place + 1) (digitCount i) (digitCount i) ≠ none := by
  have htwo : 0 < 2 * one := Nat.mul_pos (by decide) one_pos
  have hstep : gridStep (digitCount i) (digitCount i) = 2 * one := by
    rw [gridStep, Int.sub_self, Int.toNat_zero]
    generalize 2 * one = whole
    exact Nat.mul_one whole
  have hscale : gridScale (digitCount i) (digitCount i) = 1 := by
    rw [gridScale, Int.sub_self]
    rfl
  have hhalves : 2 * unitsAt (place + 1) = i * (2 * one) := by
    rw [hplace, Nat.mul_left_comm]
  have hfloor : gridFloor (place + 1) (digitCount i) (digitCount i) = i := by
    rw [gridFloor, hstep, hscale, Nat.mul_one, hhalves, Nat.mul_div_cancel _ htwo]
  refine withDigits?_ne_none (.inl ?_)
  rw [hfloor, gridHits, hstep, hscale]
  have hgap : 0 < 2 ^ shift place := Nat.two_pow_pos _
  exact roundsTo_of_near (by omega) (by omega)

/-- **The shortest digits of a whole number** below `2 ^ 53` write it.

**Proof sketch.** With as many digits as the number has, the grid consists of whole numbers and the
number is on it. So the search has come to an end with no more digits than that, which write a whole
number, and the one that rounds to the double is the number itself (`eq_of_roundsTo`). -/
theorem shortest_whole (tie : Tie) {x : Double} {i : Nat} (hpos : 0 < i) (hi : i < 2 ^ 53)
    (hx : x.units = i * one) :
    (digitCount (x.shortest tie).digits : Int) ≤ (x.shortest tie).point ∧
      (x.shortest tie).numerator = i := by
  have hzero : x.isZero = false := isZero_of_units_pos (hx ▸ Nat.mul_pos hpos one_pos)
  obtain ⟨place, hplace⟩ := exists_place hzero
  obtain ⟨count, hfirst, hpoint, hrounds⟩ := exists_decimal tie hzero
  rw [hx, pointOf_whole hpos] at hfirst hpoint
  obtain ⟨m, hm⟩ : ∃ m, digitCount i = m + 1 :=
    Nat.exists_eq_succ_of_ne_zero (Nat.ne_of_gt Nat.length_toDigits_pos)
  have hunits_place : unitsAt (place + 1) = i * one := by rw [← hx, units, hplace]
  have hwhole := withDigits?_whole tie hunits_place
  rw [← hplace] at hwhole
  have hcount := hfirst m (by rwa [← hm])
  have hfew : (digitCount (x.shortest tie).digits : Int) ≤ (x.shortest tie).point := by omega
  rw [Decimal.denominator_eq_one hfew] at hrounds
  exact ⟨hfew, eq_of_roundsTo hi hx hrounds⟩

/-! ## Large doubles -/

/-- Decimal numbers that round to a double from `2 ^ 53` on are not smaller, if they are whole. -/
theorem two_pow_le_of_roundsTo {place n : Nat} (hplace : 2 ^ 53 * one ≤ unitsAt place)
    (h : roundsTo place (2 * one * n) 1 = true) : 2 ^ 53 ≤ n := by
  obtain ⟨hbefore, -⟩ := unitsAt_nearestPlace_of_lt (n := 2 ^ 53 - 1) (by decide)
  have hlt : unitsAt (nearestPlace (2 ^ 53 - 1) 1) < unitsAt place := by
    rw [hbefore]
    exact Nat.lt_of_lt_of_le (Nat.mul_lt_mul_of_pos_right (by decide) one_pos) hplace
  have hle : nearestPlace (2 ^ 53 - 1) 1 ≤ place - 1 :=
    Nat.le_sub_one_of_lt (monotone_unitsAt.reflect_lt hlt)
  have hedge := (between_of_roundsTo h).1
  have hprevious := monotone_unitsAt hle
  rw [hbefore] at hprevious
  rw [lowerEdge, Nat.mul_one] at hedge
  have hbound : (2 ^ 53 - 1 + 2 ^ 53) * one ≤ 2 * n * one := by
    rw [Nat.add_mul, Nat.mul_right_comm]
    exact Nat.le_trans (Nat.add_le_add hprevious hplace) hedge
  have hhalves := Nat.le_of_mul_le_mul_right hbound one_pos
  omega

end Double

end CardTable
