import CardTable.Script.Token
import CardTable.Text.Alphanumeric
import CardTable.Text.Digits

set_option autoImplicit false

/-!
# Numeric literals

A numeric literal is a decimal one, with fraction and exponent, or a whole number in base sixteen,
eight or two that fits an unsigned 64-bit word. Underscores may stand among the digits and count
for nothing.

## Main definitions

* `CardTable.Script.numeral` — the double that a literal stands for, and what is behind it.

## Main results

* `CardTable.Script.length_of_numeral` — a literal is taken off the text.
-/

namespace CardTable.Script

open CardTable.Text (isAlphabetic isAlphanumeric digitsValue hexValue?)

/-- Whether `c` may begin a word. -/
def startsWord (c : Char) : Bool :=
  c == '_' || c == '$' || isAlphabetic c

/-- Whether `c` may stand inside a word; the two joiners may. -/
def continuesWord (c : Char) : Bool :=
  c == '_' || c == '$' || isAlphanumeric c || c == '\u200C' || c == '\u200D'

/-- Whether `c` may stand among the digits of a decimal literal. -/
def isDigitOrLine (c : Char) : Bool :=
  c.isDigit || c == '_'

/-- The digits at the front of a located text, without underscores, and what is behind them. -/
def takeDigits (p : Char → Bool) (cs : List Glyph) : List Char × List Glyph :=
  ((chars (cs.takeWhile fun g => p g.char)).filter (· != '_'), cs.dropWhile fun g => p g.char)

/-- The base that the letter behind a leading zero announces. -/
def radixOf? (c : Char) : Option Nat :=
  if c = 'x' ∨ c = 'X' then some 16
  else if c = 'o' ∨ c = 'O' then some 8
  else if c = 'b' ∨ c = 'B' then some 2
  else none

/-- The number that `digits` write in the given base, if they are digits of it. -/
def radixValue? (radix : Nat) (digits : List Char) : Option Nat :=
  digits.foldlM (fun acc c => do
    let digit ← hexValue? c
    if digit < radix then some (acc * radix + digit) else none) 0

/-- A literal in another base than ten, behind its leading zero and letter. -/
def radixNumeral (radix : Nat) (cs : List Glyph) : Except Problem (Option Double × List Glyph) :=
  let (digits, behind) := takeDigits (fun c => c.isAlphanum || c == '_') cs
  match radixValue? radix digits with
  | some n =>
    if digits = [] ∨ 18446744073709551616 ≤ n then .error .malformedNumber
    else .ok (Double.ofInt? n, behind)
  | none => .error .malformedNumber

/-- The fraction at the front of a located text, and what is behind it. -/
def fractionPart : List Glyph → List Char × List Glyph
  | ⟨_, '.'⟩ :: rest => takeDigits isDigitOrLine rest
  | cs => ([], cs)

/-- The sign of an exponent, and what is behind it. -/
def exponentSign : List Glyph → Bool × List Glyph
  | ⟨_, '+'⟩ :: rest => (false, rest)
  | ⟨_, '-'⟩ :: rest => (true, rest)
  | cs => (false, cs)

/-- The exponent at the front of a located text, and what is behind it; `none` is an exponent
without digits. -/
def exponentPart (cs : List Glyph) : Option Int × List Glyph :=
  match cs with
  | [] => (some 0, cs)
  | g :: rest =>
    if g.char = 'e' ∨ g.char = 'E' then
      let (negative, rest) := exponentSign rest
      let digits := chars (rest.takeWhile fun g => g.char.isDigit)
      let n : Int := digitsValue digits
      let exponent := if digits = [] then none else some (if negative then -n else n)
      (exponent, rest.dropWhile fun g => g.char.isDigit)
    else (some 0, cs)

/-- A decimal literal, and what is behind it. -/
def decimalNumeral (cs : List Glyph) : Except Problem (Option Double × List Glyph) :=
  let (whole, cs) := takeDigits isDigitOrLine cs
  let (fraction, cs) := fractionPart cs
  let (exponent, behind) := exponentPart cs
  let next := behind.head?.map Glyph.char
  if next = some 'n' then .error .bigInteger
  else if next.any startsWord then .error .wordBehindNumber
  else
    match exponent with
    | none => .error .malformedNumber
    | some exponent =>
      let digits := whole ++ fraction
      if digits = [] then .error .malformedNumber
      else .ok (Double.ofDecimal? false (digitsValue digits) (exponent - fraction.length), behind)

/-- The numeric literal at the front of a located text, and what is behind it. -/
def numeral : List Glyph → Except Problem (Option Double × List Glyph)
  | ⟨zeroAt, '0'⟩ :: letter :: rest =>
    match radixOf? letter.char with
    | some radix => radixNumeral radix rest
    | none => decimalNumeral (⟨zeroAt, '0'⟩ :: letter :: rest)
  | cs => decimalNumeral cs

/-! ## What is left of the text -/

/-- What is behind digits is no longer than the text. -/
theorem length_takeDigits_le (p : Char → Bool) (cs : List Glyph) :
    (takeDigits p cs).2.length ≤ cs.length :=
  (List.dropWhile_sublist _).length_le

/-- What is behind a fraction is no longer than the text. -/
theorem length_fractionPart_le (cs : List Glyph) : (fractionPart cs).2.length ≤ cs.length := by
  unfold fractionPart
  split
  · exact Nat.le_succ_of_le (length_takeDigits_le _ _)
  · exact Nat.le_refl _

/-- What is behind an exponent is no longer than the text. -/
theorem length_exponentPart_le (cs : List Glyph) : (exponentPart cs).2.length ≤ cs.length := by
  unfold exponentPart
  split
  · exact Nat.le_refl _
  · next g rest =>
    split
    · have hsign : (exponentSign rest).2.length ≤ rest.length := by
        unfold exponentSign
        split <;> simp
      have hdrop : ((exponentSign rest).2.dropWhile fun g => g.char.isDigit).length
          ≤ (exponentSign rest).2.length := (List.dropWhile_sublist _).length_le
      simp only [List.length_cons]
      omega
    · exact Nat.le_refl _

/-- A decimal literal that begins with a digit or a point is taken off the text. -/
theorem length_of_decimalNumeral {x : Option Double} {cs behind : List Glyph}
    (h : decimalNumeral cs = .ok (x, behind)) : behind.length < cs.length := by
  simp only [decimalNumeral] at h
  have hwhole := length_takeDigits_le isDigitOrLine cs
  have hfraction := length_fractionPart_le (takeDigits isDigitOrLine cs).2
  have hexponent := length_exponentPart_le (fractionPart (takeDigits isDigitOrLine cs).2).2
  split at h
  · simp at h
  split at h
  · simp at h
  split at h
  · simp at h
  split at h
  · simp at h
  next hdigits =>
  simp only [Except.ok.injEq, Prod.mk.injEq] at h
  obtain ⟨_, rfl⟩ := h
  rcases Nat.lt_or_ge (fractionPart (takeDigits isDigitOrLine cs).2).2.length cs.length
    with hlt | hge
  · omega
  · exfalso
    apply hdigits
    have hsame : (takeDigits isDigitOrLine cs).2.length = cs.length := by omega
    have hnone : cs.takeWhile (fun g => isDigitOrLine g.char) = [] := by
      have hsplit := congrArg List.length
        (List.takeWhile_append_dropWhile (p := fun g : Glyph => isDigitOrLine g.char) (l := cs))
      simp only [List.length_append] at hsplit
      simp only [takeDigits] at hsame
      exact List.eq_nil_of_length_eq_zero (by omega)
    have hfirst : (takeDigits isDigitOrLine cs).1 = [] := by simp [takeDigits, hnone, chars]
    have hsecond : (fractionPart (takeDigits isDigitOrLine cs).2).1 = [] := by
      generalize htail : (takeDigits isDigitOrLine cs).2 = tail at *
      unfold fractionPart
      split
      · simp only [fractionPart, List.length_cons] at hge hsame
        exact absurd (Nat.le_trans hge (length_takeDigits_le isDigitOrLine _)) (by omega)
      · rfl
    rw [hfirst, hsecond]
    rfl

/-- A literal is taken off the text. -/
theorem length_of_numeral {x : Option Double} {cs behind : List Glyph}
    (h : numeral cs = .ok (x, behind)) : behind.length < cs.length := by
  unfold numeral at h
  split at h
  · next rest =>
    split at h
    · next radix _ =>
      simp only [radixNumeral] at h
      split at h
      · split at h
        · simp at h
        · simp only [Except.ok.injEq, Prod.mk.injEq] at h
          obtain ⟨_, rfl⟩ := h
          have := length_takeDigits_le (fun c => c.isAlphanum || c == '_') rest
          simp only [List.length_cons]
          omega
      · simp at h
    · exact length_of_decimalNumeral h
  · exact length_of_decimalNumeral h

end CardTable.Script
