import CardTable.Text.Hex

set_option autoImplicit false

/-!
# Escapes in string literals

The body of a string literal is read in strict mode: octal escapes are refused, and a backslash in
front of a line break joins two lines. Escapes name code points one by one, surrogates included. A
high surrogate waits for what is named behind it: together with a low one it is one character, and a
surrogate that stands alone is replaced by U+FFFD.

## Main definitions

* `CardTable.Script.EscapeError` — why a body is refused.
* `CardTable.Script.escape` — the code point that one escape names.
* `CardTable.Script.pushPoint` — what is complete with one code point more.
* `CardTable.Script.unescape` — the text that a body stands for.

## Main results

* `CardTable.Script.unescapeFrom_plain`, `CardTable.Script.unescapeFrom_escape`,
  `CardTable.Script.unescapeFrom_joinedLine` — what each part of a body stands for.
-/

namespace CardTable.Script

open CardTable.Text (hexValue? isHexDigit hexNumber)

/-- Why the body of a string literal is refused. -/
inductive EscapeError where
  /-- The body ends behind a backslash. -/
  | unterminated
  /-- A digit that would begin an octal escape. -/
  | octal (digit : Char)
  /-- Fewer hexadecimal digits than the escape needs. -/
  | malformedHex
  /-- Braces that do not hold the number of a code point. -/
  | malformedBraces
  /-- A number beyond the last code point. -/
  | outOfRange
deriving DecidableEq

/-- The wording of an error. -/
def EscapeError.message : EscapeError → String
  | .unterminated => "unterminated escape sequence"
  | .octal digit => "octal escape '\\" ++ digit.toString ++ "' not allowed"
  | .malformedHex => "malformed hexadecimal escape"
  | .malformedBraces => "malformed \\u\x7b...\x7d escape"
  | .outOfRange => "code point out of range"

/-! ## One escape -/

/-- The number written by exactly `count` hexadecimal digits behind `acc`, and what is behind it. -/
def fixedHex (acc : Nat) : Nat → List Char → Except EscapeError (Nat × List Char)
  | 0, cs => .ok (acc, cs)
  | _ + 1, [] => .error .malformedHex
  | count + 1, c :: rest =>
    match hexValue? c with
    | some digit => fixedHex (acc * 16 + digit) count rest
    | none => .error .malformedHex

/-- The code point written in braces, the text standing behind the opening one, and what is behind
the closing one. A number of more than 32 bits is none at all. -/
def bracedHex (cs : List Char) : Except EscapeError (Nat × List Char) :=
  let digits := cs.takeWhile isHexDigit
  match cs.dropWhile isHexDigit with
  | '\x7d' :: rest =>
    if digits = [] ∨ 4294967296 ≤ hexNumber digits then .error .malformedBraces
    else if 0x10FFFF < hexNumber digits then .error .outOfRange
    else .ok (hexNumber digits, rest)
  | _ => .error .malformedBraces

/-- The code point of an escape, the text standing behind the backslash, and what is behind the
escape. A joined line spells no code point. -/
def escape : List Char → Except EscapeError (Option Nat × List Char)
  | [] => .error .unterminated
  | 'n' :: rest => .ok (some 0x0A, rest)
  | 'r' :: rest => .ok (some 0x0D, rest)
  | 't' :: rest => .ok (some 0x09, rest)
  | 'b' :: rest => .ok (some 0x08, rest)
  | 'f' :: rest => .ok (some 0x0C, rest)
  | 'v' :: rest => .ok (some 0x0B, rest)
  | 'x' :: rest => (fixedHex 0 2 rest).map fun (n, behind) => (some n, behind)
  | 'u' :: '\x7b' :: rest => (bracedHex rest).map fun (n, behind) => (some n, behind)
  | 'u' :: rest => (fixedHex 0 4 rest).map fun (n, behind) => (some n, behind)
  | '\r' :: '\n' :: rest => .ok (none, rest)
  | c :: rest =>
    if c = '\n' ∨ c = '\r' ∨ c = '\u2028' ∨ c = '\u2029' then .ok (none, rest)
    else if c = '0' ∧ rest.head?.all (fun next => !next.isDigit) then .ok (some 0, rest)
    else if c.isDigit then .error (.octal c)
    else .ok (some c.toNat, rest)

/-- Fixed hexadecimal digits are taken off the text. -/
theorem length_of_fixedHex {acc count n : Nat} {cs rest : List Char}
    (h : fixedHex acc count cs = .ok (n, rest)) : rest.length ≤ cs.length := by
  induction count generalizing acc cs with
  | zero =>
    simp only [fixedHex, Except.ok.injEq, Prod.mk.injEq] at h
    exact h.2 ▸ Nat.le_refl _
  | succ count ih =>
    cases cs with
    | nil => simp [fixedHex] at h
    | cons c tail =>
      simp only [fixedHex] at h
      split at h
      · exact Nat.le_succ_of_le (ih h)
      · simp at h

/-- A number in braces is taken off the text. -/
theorem length_of_bracedHex {n : Nat} {cs rest : List Char}
    (h : bracedHex cs = .ok (n, rest)) : rest.length ≤ cs.length := by
  have hdrop : (cs.dropWhile isHexDigit).length ≤ cs.length :=
    (List.dropWhile_sublist _).length_le
  simp only [bracedHex] at h
  split at h
  · next behind hbehind =>
    rw [hbehind] at hdrop
    simp only [List.length_cons] at hdrop
    split at h
    · simp at h
    · split at h
      · simp at h
      · simp only [Except.ok.injEq, Prod.mk.injEq] at h
        obtain ⟨_, rfl⟩ := h
        omega
  · simp at h

/-- An escape is taken off the text. -/
theorem length_of_escape {point : Option Nat} {cs rest : List Char}
    (h : escape cs = .ok (point, rest)) : rest.length < cs.length := by
  have hmap : ∀ {n : Nat} {r : Except EscapeError (Nat × List Char)},
      r.map (fun (n, behind) => (some n, behind)) = .ok (some n, rest) → r = .ok (n, rest) := by
    intro n r hr
    rcases r with e | ⟨m, behind⟩
    · simp [Except.map] at hr
    · simpa [Except.map] using hr
  unfold escape at h
  split at h
  case h_8 tail =>
    rcases point with _ | n
    · rcases hr : fixedHex 0 2 tail with e | ⟨m, behind⟩ <;> simp [hr, Except.map] at h
    · exact Nat.lt_succ_of_le (length_of_fixedHex (hmap h))
  case h_9 tail =>
    rcases point with _ | n
    · rcases hr : bracedHex tail with e | ⟨m, behind⟩ <;> simp [hr, Except.map] at h
    · have := length_of_bracedHex (hmap h)
      simp only [List.length_cons]
      omega
  case h_10 tail _ =>
    rcases point with _ | n
    · rcases hr : fixedHex 0 4 tail with e | ⟨m, behind⟩ <;> simp [hr, Except.map] at h
    · exact Nat.lt_succ_of_le (length_of_fixedHex (hmap h))
  case h_12 c tail _ _ _ _ _ _ _ _ _ =>
    split at h
    · simp only [Except.ok.injEq, Prod.mk.injEq] at h
      simp [h.2]
    · split at h
      · simp only [Except.ok.injEq, Prod.mk.injEq] at h
        simp [h.2]
      · split at h
        · simp at h
        · simp only [Except.ok.injEq, Prod.mk.injEq] at h
          simp [h.2]
  case h_1 => simp at h
  all_goals
    simp only [Except.ok.injEq, Prod.mk.injEq] at h
    obtain ⟨_, rfl⟩ := h
    simp only [List.length_cons]
    omega

/-! ## Surrogates -/

/-- Whether `n` is a high surrogate. -/
def isHighSurrogate (n : Nat) : Bool :=
  0xD800 ≤ n && n < 0xDC00

/-- Whether `n` is a low surrogate. -/
def isLowSurrogate (n : Nat) : Bool :=
  0xDC00 ≤ n && n < 0xE000

/-- The character that a high and a low surrogate stand for together. -/
def surrogatePair (high low : Nat) : Char :=
  Char.ofNat (0x10000 + (high - 0xD800) * 0x400 + (low - 0xDC00))

/-- What is left of a high surrogate, if there is one, that waits for a low one in vain. -/
def unpaired (waiting : Option Nat) : List Char :=
  if waiting.isSome then ['\uFFFD'] else []

/-- The characters that are complete with the code point `n` behind a high surrogate that may be
waiting, and the high surrogate that waits then. -/
def pushPoint (waiting : Option Nat) (n : Nat) : List Char × Option Nat :=
  if isHighSurrogate n then (unpaired waiting, some n)
  else if isLowSurrogate n then
    match waiting with
    | some high => ([surrogatePair high n], none)
    | none => (['\uFFFD'], none)
  else (unpaired waiting ++ [Char.ofNat n], none)

/-! ## Bodies -/

/-- The text that a body stands for behind a high surrogate that may be waiting. A joined line
leaves it waiting, and a character that stands for itself does not. -/
def unescapeFrom (waiting : Option Nat) : List Char → Except EscapeError (List Char)
  | [] => .ok (unpaired waiting)
  | c :: rest =>
    if c = '\\' then
      match _h : escape rest with
      | .error e => .error e
      | .ok (none, behind) => unescapeFrom waiting behind
      | .ok (some n, behind) =>
        (unescapeFrom (pushPoint waiting n).2 behind).map ((pushPoint waiting n).1 ++ ·)
    else (unescapeFrom none rest).map (unpaired waiting ++ c :: ·)
termination_by cs => cs.length
decreasing_by
  · exact Nat.lt_succ_of_lt (length_of_escape _h)
  · exact Nat.lt_succ_of_lt (length_of_escape _h)
  · exact Nat.lt_succ_self _

/-- A character that stands for itself. -/
theorem unescapeFrom_plain {c : Char} (hc : c ≠ '\\') (waiting : Option Nat) (rest : List Char) :
    unescapeFrom waiting (c :: rest) =
      (unescapeFrom none rest).map (unpaired waiting ++ c :: ·) := by
  rw [unescapeFrom, if_neg hc]

/-- An escape that names a code point. -/
theorem unescapeFrom_escape {n : Nat} {cs behind : List Char}
    (h : escape cs = .ok (some n, behind)) (waiting : Option Nat) :
    unescapeFrom waiting ('\\' :: cs) =
      (unescapeFrom (pushPoint waiting n).2 behind).map ((pushPoint waiting n).1 ++ ·) := by
  rw [unescapeFrom, if_pos rfl]
  split
  · next h' => cases h.symm.trans h'
  · next h' => cases h.symm.trans h'
  · next h' =>
    obtain ⟨⟨⟩, ⟨⟩⟩ := h.symm.trans h'
    rfl

/-- A joined line. -/
theorem unescapeFrom_joinedLine {cs behind : List Char} (h : escape cs = .ok (none, behind))
    (waiting : Option Nat) :
    unescapeFrom waiting ('\\' :: cs) = unescapeFrom waiting behind := by
  rw [unescapeFrom, if_pos rfl]
  split
  · next h' => cases h.symm.trans h'
  · next h' =>
    obtain ⟨⟨⟩, ⟨⟩⟩ := h.symm.trans h'
    rfl
  · next h' => cases h.symm.trans h'

/-- The code point of a character is that character. -/
theorem pushPoint_toNat (c : Char) : pushPoint none c.toNat = ([c], none) := by
  have hc : c.toNat < 0xD800 ∨ 0xDFFF < c.toNat ∧ c.toNat < 0x110000 := c.valid
  have hhigh : isHighSurrogate c.toNat = false := by
    simp only [isHighSurrogate, Bool.and_eq_false_iff, decide_eq_false_iff_not]
    omega
  have hlow : isLowSurrogate c.toNat = false := by
    simp only [isLowSurrogate, Bool.and_eq_false_iff, decide_eq_false_iff_not]
    omega
  simp [pushPoint, hhigh, hlow, unpaired]

/-- The text that the body of a string literal stands for. -/
def unescape (body : List Char) : Except EscapeError (List Char) :=
  unescapeFrom none body

/-- The text that the body of a string literal stands for, as a string. -/
def unescapeText (body : String) : Except EscapeError String :=
  (unescape body.toList).map String.ofList

end CardTable.Script
