import CardTable.Script.Escape
import Mathlib.Algebra.Group.Nat.Defs
import Mathlib.Data.List.TakeWhile

set_option autoImplicit false

/-!
# The grammar of string bodies

The body of a string literal is a sequence of pieces: characters that stand for themselves, escapes,
and joined lines. A piece names UTF-16 code units, and the text of the body is what the units of all
pieces together encode. Pairs of surrogates are found in the whole sequence, so that the halves of a
pair may come from pieces of different kinds and from both sides of a joined line. A surrogate
without a partner is replaced by U+FFFD.

## Main definitions

* `CardTable.Script.unitsOf`, `CardTable.Script.joinUnits` — the code units of a code point, and the
  text of a sequence of code units.
* `CardTable.Script.EscapeForm` — the grammar of escapes.
* `CardTable.Script.Names` — the code units that a body names.

## Main results

* `CardTable.Script.escape_eq_ok_iff` — an escape is read as the grammar has it.
* `CardTable.Script.joinUnits_pushPoint` — what one code point more completes.
* `CardTable.Script.unescape_eq_ok_iff` — the bodies that stand for a text, and for which.
-/

namespace CardTable.Script

open CardTable.Text (hexValue? isHexDigit hexNumber)

/-! ## Code units -/

/-- The UTF-16 code units of a code point. A surrogate is a unit of its own. -/
def unitsOf (n : Nat) : List Nat :=
  if n < 0x10000 then [n]
  else [0xD800 + (n - 0x10000) / 0x400, 0xDC00 + (n - 0x10000) % 0x400]

/-- The character of a code unit without a partner: a surrogate is replaced. -/
def loneChar (unit : Nat) : Char :=
  if isHighSurrogate unit || isLowSurrogate unit then '\uFFFD' else Char.ofNat unit

/-- The text of a sequence of code units: a high surrogate and a low one behind it are one
character. -/
def joinUnits : List Nat → List Char
  | [] => []
  | [unit] => [loneChar unit]
  | unit :: next :: rest =>
    if isHighSurrogate unit && isLowSurrogate next then surrogatePair unit next :: joinUnits rest
    else loneChar unit :: joinUnits (next :: rest)

/-- A unit that does not begin a pair. -/
lemma joinUnits_cons {unit : Nat} {units : List Nat}
    (h : isHighSurrogate unit = true → units.head?.any isLowSurrogate = false) :
    joinUnits (unit :: units) = loneChar unit :: joinUnits units := by
  cases units with
  | nil => rfl
  | cons next rest =>
    have hpair : (isHighSurrogate unit && isLowSurrogate next) = false := by
      cases hunit : isHighSurrogate unit with
      | false => rfl
      | true => simpa using h hunit
    rw [joinUnits, hpair]
    rfl

/-- A pair. -/
lemma joinUnits_pair {high low : Nat} (hhigh : isHighSurrogate high = true)
    (hlow : isLowSurrogate low = true) (units : List Nat) :
    joinUnits (high :: low :: units) = surrogatePair high low :: joinUnits units := by
  rw [joinUnits, hhigh, hlow]
  rfl

/-- Where nothing waits, every surrogate that waits is high. -/
lemma waiting_none : ∀ high ∈ (none : Option Nat), isHighSurrogate high = true :=
  nofun

/-- A high surrogate that waits in vain. -/
lemma joinUnits_waiting {waiting : Option Nat} {units : List Nat}
    (hwaiting : ∀ high ∈ waiting, isHighSurrogate high = true)
    (hunits : units.head?.any isLowSurrogate = false) :
    joinUnits (waiting.toList ++ units) = unpaired waiting ++ joinUnits units := by
  cases waiting with
  | none => rfl
  | some high =>
    have hhigh := hwaiting high rfl
    refine (joinUnits_cons fun _ => hunits).trans ?_
    rw [loneChar, hhigh]
    rfl

/-- No surrogate is both high and low. -/
lemma isLowSurrogate_of_isHighSurrogate {n : Nat} (h : isHighSurrogate n = true) :
    isLowSurrogate n = false := by
  simp only [isHighSurrogate, isLowSurrogate, Bool.and_eq_true, Bool.and_eq_false_iff,
    decide_eq_true_eq, decide_eq_false_iff_not] at h ⊢
  omega

/-- A code point beyond the first plane is a pair of surrogates. -/
lemma exists_pair_of_unitsOf {n : Nat} (hn : 0x10000 ≤ n) (hmax : n ≤ 0x10FFFF) :
    ∃ high low, unitsOf n = [high, low] ∧ isHighSurrogate high = true ∧
      isLowSurrogate low = true ∧ surrogatePair high low = Char.ofNat n := by
  refine ⟨_, _, if_neg (by omega), ?_, ?_, congrArg Char.ofNat ?_⟩
  · simp only [isHighSurrogate, Bool.and_eq_true, decide_eq_true_eq]
    omega
  · simp only [isLowSurrogate, Bool.and_eq_true, decide_eq_true_eq]
    omega
  · omega

/-- The high surrogate that waits behind a code point is one. -/
lemma isHighSurrogate_of_pushPoint (waiting : Option Nat) (n : Nat) :
    ∀ high ∈ (pushPoint waiting n).2, isHighSurrogate high = true := by
  intro high hhigh
  unfold pushPoint at hhigh
  split at hhigh
  · next hn =>
    obtain rfl := Option.some.inj hhigh
    exact hn
  split at hhigh
  · cases waiting <;> cases hhigh
  · cases hhigh

/-- **What one code point more completes** is the front of the text of all code units, whatever
units come behind it. -/
theorem joinUnits_pushPoint {waiting : Option Nat}
    (hwaiting : ∀ high ∈ waiting, isHighSurrogate high = true) {n : Nat} (hn : n ≤ 0x10FFFF)
    (units : List Nat) :
    joinUnits (waiting.toList ++ (unitsOf n ++ units)) =
      (pushPoint waiting n).1 ++ joinUnits ((pushPoint waiting n).2.toList ++ units) := by
  by_cases hplane : n < 0x10000
  · rw [unitsOf, if_pos hplane, List.singleton_append]
    unfold pushPoint
    split
    · next hhigh =>
      exact joinUnits_waiting hwaiting (by simp [isLowSurrogate_of_isHighSurrogate hhigh])
    next hhigh =>
    split
    · next hlow =>
      cases waiting with
      | none =>
        refine (joinUnits_cons fun h => absurd h hhigh).trans ?_
        rw [loneChar, hlow, Bool.or_true]
        rfl
      | some high => exact joinUnits_pair (hwaiting high rfl) hlow units
    · next hlow =>
      rw [joinUnits_waiting hwaiting (by simpa using hlow),
        joinUnits_cons fun h => absurd h hhigh, loneChar, if_neg (by simp [hhigh, hlow]),
        List.append_assoc]
      rfl
  · obtain ⟨high, low, hunits, hhigh, hlow, hpair⟩ := exists_pair_of_unitsOf (by omega) hn
    have hnone : isHighSurrogate n = false ∧ isLowSurrogate n = false := by
      simp only [isHighSurrogate, isLowSurrogate, Bool.and_eq_false_iff, decide_eq_false_iff_not]
      omega
    rw [pushPoint.eq_def, hnone.1, hnone.2, hunits, List.cons_append, List.singleton_append,
      joinUnits_waiting hwaiting (by simp [isLowSurrogate_of_isHighSurrogate hhigh]),
      joinUnits_pair hhigh hlow, hpair]
    simp

/-- The units of a character complete it, and a high surrogate in front of it waits in vain. -/
lemma joinUnits_char {waiting : Option Nat}
    (hwaiting : ∀ high ∈ waiting, isHighSurrogate high = true) (c : Char) (units : List Nat) :
    joinUnits (waiting.toList ++ (unitsOf c.toNat ++ units)) =
      unpaired waiting ++ c :: joinUnits units := by
  have hc : c.toNat < 0xD800 ∨ 0xDFFF < c.toNat ∧ c.toNat < 0x110000 := c.valid
  have hfirst : (unitsOf c.toNat ++ units).head?.any isLowSurrogate = false := by
    by_cases hplane : c.toNat < 0x10000
    · rw [unitsOf, if_pos hplane]
      simp only [List.singleton_append, List.head?_cons, Option.any_some, isLowSurrogate,
        Bool.and_eq_false_iff, decide_eq_false_iff_not]
      omega
    · obtain ⟨high, low, hunits, hhigh, -⟩ :=
        exists_pair_of_unitsOf (n := c.toNat) (by omega) (by omega)
      simp [hunits, isLowSurrogate_of_isHighSurrogate hhigh]
  have hpoint := joinUnits_pushPoint waiting_none (n := c.toNat) (by omega) units
  rw [pushPoint_toNat] at hpoint
  rw [joinUnits_waiting hwaiting hfirst]
  exact congrArg (unpaired waiting ++ ·) hpoint

/-! ## The grammar -/

/-- The letters that stand for control characters, with the code units of these. -/
def controlLetters : List (Char × Nat) :=
  [('n', 0x0A), ('r', 0x0D), ('t', 0x09), ('b', 0x08), ('f', 0x0C), ('v', 0x0B)]

/-- The characters that end a line. -/
def lineEnds : List Char :=
  ['\n', '\r', '\u2028', '\u2029']

/-- The decimal digits. -/
def decimalDigits : List Char :=
  ['0', '1', '2', '3', '4', '5', '6', '7', '8', '9']

/-- The characters that do not stand for themselves behind a backslash. -/
def reserved : List Char :=
  ['n', 'r', 't', 'b', 'f', 'v', 'x', 'u'] ++ decimalDigits ++ lineEnds

/-- The grammar of escapes: `EscapeForm form behind units` says that the characters `form`, behind a
backslash and in front of `behind`, are an escape, and that it names the code units `units`. -/
inductive EscapeForm : List Char → List Char → List Nat → Prop
  /-- A letter that stands for a control character. -/
  | control {c : Char} {unit : Nat} (hc : (c, unit) ∈ controlLetters) (behind : List Char) :
      EscapeForm [c] behind [unit]
  /-- The digit zero, unless another digit follows it. -/
  | zero {behind : List Char} (hbehind : behind.head?.any Char.isDigit = false) :
      EscapeForm ['0'] behind [0]
  /-- Two hexadecimal digits behind an `x`. -/
  | byte {digits : List Char} (hlength : digits.length = 2)
      (hdigits : ∀ c ∈ digits, isHexDigit c = true) (behind : List Char) :
      EscapeForm ('x' :: digits) behind [hexNumber digits]
  /-- Four hexadecimal digits behind a `u`. -/
  | unit {digits : List Char} (hlength : digits.length = 4)
      (hdigits : ∀ c ∈ digits, isHexDigit c = true) (behind : List Char) :
      EscapeForm ('u' :: digits) behind [hexNumber digits]
  /-- The hexadecimal number of a code point in braces. -/
  | point {digits : List Char} (hne : digits ≠ []) (hdigits : ∀ c ∈ digits, isHexDigit c = true)
      (hmax : hexNumber digits ≤ 0x10FFFF) (behind : List Char) :
      EscapeForm ('u' :: '\x7b' :: (digits ++ ['\x7d'])) behind (unitsOf (hexNumber digits))
  /-- A joined line. -/
  | joined {c : Char} {behind : List Char} (hc : c ∈ lineEnds)
      (hbehind : c = '\r' → behind.head? ≠ some '\n') : EscapeForm [c] behind []
  /-- A joined line that ends in two characters. -/
  | joinedBoth (behind : List Char) : EscapeForm ['\r', '\n'] behind []
  /-- Any other character stands for itself. -/
  | itself {c : Char} (hc : c ∉ reserved) (behind : List Char) :
      EscapeForm [c] behind (unitsOf c.toNat)

/-- The code units that a body names: it is a sequence of characters that stand for themselves and
of escapes, and names the units of these, one behind the other. -/
inductive Names : List Char → List Nat → Prop
  | nil : Names [] []
  | plain {c : Char} {behind : List Char} {units : List Nat} (hc : c ≠ '\\')
      (hbehind : Names behind units) : Names (c :: behind) (unitsOf c.toNat ++ units)
  | escape {form behind : List Char} {units more : List Nat} (hform : EscapeForm form behind units)
      (hbehind : Names behind more) : Names ('\\' :: (form ++ behind)) (units ++ more)

/-! ## Hexadecimal digits -/

/-- So many hexadecimal digits write fewer numbers than powers of sixteen. -/
lemma foldl_hexValue_lt {digits : List Char} (acc : Nat) :
    digits.foldl (fun acc c => acc * 16 + (hexValue? c).getD 0) acc <
      (acc + 1) * 16 ^ digits.length := by
  induction digits generalizing acc with
  | nil => simp
  | cons c rest ih =>
    have hdigit : (hexValue? c).getD 0 < 16 := by
      cases h : hexValue? c with
      | none => decide
      | some d => exact Text.hexValue?_lt h
    have hnext : acc * 16 + (hexValue? c).getD 0 + 1 ≤ (acc + 1) * 16 := by omega
    calc _ < (acc * 16 + (hexValue? c).getD 0 + 1) * 16 ^ rest.length := ih _
      _ ≤ (acc + 1) * 16 * 16 ^ rest.length := Nat.mul_le_mul_right _ hnext
      _ = (acc + 1) * 16 ^ (c :: rest).length := by
        rw [List.length_cons, Nat.pow_succ, Nat.mul_comm (16 ^ rest.length), Nat.mul_assoc]

/-- Four hexadecimal digits at most write a code unit. -/
lemma hexNumber_lt {digits : List Char} (h : digits.length ≤ 4) :
    hexNumber digits < 0x10000 := by
  calc hexNumber digits < (0 + 1) * 16 ^ digits.length := foldl_hexValue_lt 0
    _ ≤ 16 ^ 4 := by
      rw [Nat.zero_add, Nat.one_mul]
      exact Nat.pow_le_pow_right (by decide) h

/-- So many hexadecimal digits are taken off the text. -/
lemma fixedHex_eq_ok_iff {acc count n : Nat} {cs behind : List Char} :
    fixedHex acc count cs = .ok (n, behind) ↔
      ∃ digits, cs = digits ++ behind ∧ digits.length = count ∧
        (∀ c ∈ digits, isHexDigit c = true) ∧
        n = digits.foldl (fun acc c => acc * 16 + (hexValue? c).getD 0) acc := by
  induction count generalizing acc cs with
  | zero =>
    simp only [fixedHex, Except.ok.injEq, Prod.mk.injEq, List.length_eq_zero_iff]
    constructor
    · rintro ⟨rfl, rfl⟩
      exact ⟨[], rfl, rfl, List.forall_mem_nil _, rfl⟩
    · rintro ⟨_, rfl, rfl, -, rfl⟩
      exact ⟨rfl, rfl⟩
  | succ count ih =>
    cases cs with
    | nil =>
      simp only [fixedHex, reduceCtorEq, false_iff]
      rintro ⟨digits, hdigits, hlength, -⟩
      obtain ⟨rfl, -⟩ := List.append_eq_nil_iff.1 hdigits.symm
      cases hlength
    | cons c rest =>
      rw [fixedHex]
      cases hc : hexValue? c with
      | none =>
        simp only [reduceCtorEq, false_iff]
        rintro ⟨_ | ⟨d, digits⟩, hdigits, hlength, hall, -⟩
        · cases hlength
        · obtain ⟨rfl, -⟩ := List.cons.inj hdigits
          have hhex := hall c (List.mem_cons_self ..)
          rw [isHexDigit, hc] at hhex
          cases hhex
      | some digit =>
        dsimp only
        rw [ih]
        constructor
        · rintro ⟨digits, rfl, rfl, hall, rfl⟩
          refine ⟨c :: digits, rfl, rfl, List.forall_mem_cons.2 ⟨?_, hall⟩, ?_⟩
          · rw [isHexDigit, hc]
            rfl
          · rw [List.foldl_cons, hc]
            rfl
        · rintro ⟨_ | ⟨d, digits⟩, hdigits, hlength, hall, rfl⟩
          · cases hlength
          · obtain ⟨rfl, rfl⟩ := List.cons.inj hdigits
            refine ⟨digits, rfl, Nat.succ.inj hlength, (List.forall_mem_cons.1 hall).2, ?_⟩
            rw [List.foldl_cons, hc]
            rfl

/-- A code point in braces is taken off the text. -/
lemma bracedHex_eq_ok_iff {n : Nat} {cs behind : List Char} :
    bracedHex cs = .ok (n, behind) ↔
      ∃ digits, cs = digits ++ '\x7d' :: behind ∧ digits ≠ [] ∧
        (∀ c ∈ digits, isHexDigit c = true) ∧ hexNumber digits ≤ 0x10FFFF ∧
        n = hexNumber digits := by
  constructor
  · intro h
    have hsplit := List.takeWhile_append_dropWhile (p := isHexDigit) (l := cs)
    simp only [bracedHex] at h
    split at h
    · next rest hrest =>
      split at h
      · cases h
      next hsome =>
      split at h
      · cases h
      next hmax =>
      obtain ⟨⟨⟩, ⟨⟩⟩ := h
      refine ⟨cs.takeWhile isHexDigit, by rw [← hrest, hsplit], fun hnil => hsome (.inl hnil),
        fun c hc => ?_, Nat.le_of_not_lt hmax, rfl⟩
      exact List.mem_takeWhile_imp hc
    · cases h
  · rintro ⟨digits, rfl, hne, hall, hmax, rfl⟩
    have hbrace : ¬ isHexDigit '\x7d' = true := by decide
    have htake : (digits ++ '\x7d' :: behind).takeWhile isHexDigit = digits := by
      rw [List.takeWhile_append_of_pos hall, List.takeWhile_cons_of_neg hbrace, List.append_nil]
    have hdrop : (digits ++ '\x7d' :: behind).dropWhile isHexDigit = '\x7d' :: behind := by
      rw [List.dropWhile_append_of_pos hall, List.dropWhile_cons_of_neg hbrace]
    simp only [bracedHex, htake, hdrop]
    rw [if_neg (by simp only [hne, false_or]; omega), if_neg (Nat.not_lt.2 hmax)]

/-! ## Escapes -/

/-- The code units of an escape: those of its code point, if it names one. -/
def escapeUnits (point : Option Nat) : List Nat :=
  point.toList.flatMap unitsOf

/-- A number below the second plane is a code unit itself. -/
lemma escapeUnits_some {n : Nat} (h : n < 0x10000) : escapeUnits (some n) = [n] := by
  rw [escapeUnits, Option.toList_some, List.flatMap_singleton, unitsOf, if_pos h]

/-- A control letter is an escape. -/
lemma exists_form_of_control {c : Char} {n : Nat} (hc : (c, n) ∈ controlLetters)
    (behind : List Char) :
    ∃ form, c :: behind = form ++ behind ∧ EscapeForm form behind (escapeUnits (some n)) ∧
      ∀ m ∈ some n, m ≤ 0x10FFFF := by
  have hsmall : ∀ letter ∈ controlLetters, letter.2 < 0x10000 := by decide
  have hn : n < 0x10000 := hsmall _ hc
  refine ⟨[c], rfl, escapeUnits_some hn ▸ .control hc behind, ?_⟩
  rintro _ ⟨⟩
  omega

/-- The digits of an escape that has a fixed number of them. -/
lemma exists_digits_of_fixedHex {count : Nat} {rest behind : List Char} {point : Option Nat}
    (hcount : count ≤ 4)
    (h : (fixedHex 0 count rest).map (fun p => (some p.1, p.2)) = .ok (point, behind)) :
    ∃ digits, rest = digits ++ behind ∧ digits.length = count ∧
      (∀ c ∈ digits, isHexDigit c = true) ∧ point = some (hexNumber digits) ∧
      hexNumber digits < 0x10000 := by
  rcases hread : fixedHex 0 count rest with e | ⟨n, left⟩
  · simp [hread, Except.map] at h
  · rw [hread] at h
    obtain ⟨⟨⟩, ⟨⟩⟩ := h
    obtain ⟨digits, rfl, rfl, hall, rfl⟩ := fixedHex_eq_ok_iff.1 hread
    exact ⟨digits, rfl, rfl, hall, rfl, hexNumber_lt hcount⟩

/-- A character that is not reserved is an escape. -/
lemma exists_form_of_not_reserved {c : Char} (hc : c ∉ reserved) (behind : List Char) :
    ∃ form, c :: behind = form ++ behind ∧ EscapeForm form behind (escapeUnits (some c.toNat)) ∧
      ∀ n ∈ some c.toNat, n ≤ 0x10FFFF := by
  refine ⟨[c], rfl, ?_, ?_⟩
  · rw [escapeUnits, Option.toList_some, List.flatMap_singleton]
    exact .itself hc behind
  · rintro _ ⟨⟩
    have hvalid : c.toNat < 0xD800 ∨ 0xDFFF < c.toNat ∧ c.toNat < 0x110000 := c.valid
    omega

/-- An escape that is read is one of the grammar. -/
lemma exists_form_of_escape {cs behind : List Char} {point : Option Nat}
    (h : escape cs = .ok (point, behind)) :
    ∃ form, cs = form ++ behind ∧ EscapeForm form behind (escapeUnits point) ∧
      ∀ n ∈ point, n ≤ 0x10FFFF := by
  unfold escape at h
  split at h
  case h_1 => cases h
  case h_2 | h_3 | h_4 | h_5 | h_6 | h_7 =>
    obtain ⟨⟨⟩, ⟨⟩⟩ := h
    exact exists_form_of_control (by decide) _
  case h_8 rest =>
    obtain ⟨digits, rfl, hlength, hall, rfl, hsmall⟩ := exists_digits_of_fixedHex (by decide) h
    refine ⟨'x' :: digits, rfl, escapeUnits_some hsmall ▸ .byte hlength hall behind, ?_⟩
    rintro _ ⟨⟩
    omega
  case h_9 rest =>
    rcases hread : bracedHex rest with e | ⟨n, left⟩
    · simp [hread, Except.map] at h
    · rw [hread] at h
      obtain ⟨⟨⟩, ⟨⟩⟩ := h
      obtain ⟨digits, rfl, hne, hall, hmax, rfl⟩ := bracedHex_eq_ok_iff.1 hread
      refine ⟨'u' :: '\x7b' :: (digits ++ ['\x7d']), by simp, ?_, ?_⟩
      · rw [escapeUnits, Option.toList_some, List.flatMap_singleton]
        exact .point hne hall hmax behind
      · rintro _ ⟨⟩
        exact hmax
  case h_10 rest _ =>
    obtain ⟨digits, rfl, hlength, hall, rfl, hsmall⟩ := exists_digits_of_fixedHex (by decide) h
    refine ⟨'u' :: digits, rfl, escapeUnits_some hsmall ▸ .unit hlength hall behind, ?_⟩
    rintro _ ⟨⟩
    omega
  case h_11 =>
    obtain ⟨⟨⟩, ⟨⟩⟩ := h
    exact ⟨['\r', '\n'], rfl, .joinedBoth behind, by simp⟩
  case h_12 c rest hn hr ht hb hf hv hx _ hu hboth =>
    split at h
    · next hend =>
      obtain ⟨⟨⟩, ⟨⟩⟩ := h
      refine ⟨[c], rfl, .joined (by simpa [lineEnds] using hend) ?_, by simp⟩
      rintro rfl hhead
      obtain ⟨rest, rfl⟩ := List.head?_eq_some_iff.1 hhead
      exact hboth rest rfl rfl
    next hend =>
    split at h
    · next hzero =>
      obtain ⟨⟨⟩, ⟨⟩⟩ := h
      obtain ⟨rfl, hbehind⟩ := hzero
      refine ⟨['0'], rfl, escapeUnits_some (n := 0) (by decide) ▸ .zero ?_, ?_⟩
      · cases hhead : behind.head? <;> simp_all
      · rintro _ ⟨⟩
        omega
    split at h
    · cases h
    · next hdigit =>
      obtain ⟨⟨⟩, ⟨⟩⟩ := h
      have hreserved : c ∉ reserved := by
        have hdigits : ∀ d ∈ decimalDigits, d.isDigit = true := List.all_eq_true.1 rfl
        simp only [reserved, List.mem_append, not_or]
        refine ⟨⟨?_, fun hmem => hdigit (hdigits c hmem)⟩, by simpa [lineEnds] using hend⟩
        simpa using ⟨hn, hr, ht, hb, hf, hv, hx, hu⟩
      exact exists_form_of_not_reserved hreserved _

/-- A character that is not reserved stands for itself. -/
lemma escape_of_not_reserved {c : Char} (hc : c ∉ reserved) (behind : List Char) :
    escape (c :: behind) = .ok (some c.toNat, behind) := by
  have hdigit : c.isDigit = true → c ∈ decimalDigits := by
    intro h
    obtain ⟨hlow, hhigh⟩ := Char.isDigit_iff_toNat.1 h
    have hall : ∀ n < 58, 48 ≤ n → Char.ofNat n ∈ decimalDigits := by decide
    have hmem := hall c.toNat (Nat.lt_succ_of_le hhigh) hlow
    rwa [Char.ofNat_toNat] at hmem
  simp only [reserved, List.mem_append, not_or] at hc
  obtain ⟨⟨hletter, hdecimal⟩, hend⟩ := hc
  have hzero : c ≠ '0' := by
    rintro rfl
    exact hdecimal (by decide)
  rw [escape.eq_12]
  · rw [if_neg (by simpa [lineEnds] using hend), if_neg (fun h => hzero h.1),
      if_neg (fun h => hdecimal (hdigit h))]
  all_goals simp_all [lineEnds]

/-- An escape of the grammar is read. -/
lemma exists_escape_of_form {form behind : List Char} {units : List Nat}
    (h : EscapeForm form behind units) :
    ∃ point, escape (form ++ behind) = .ok (point, behind) ∧ units = escapeUnits point := by
  cases h with
  | @control c unit hc =>
    simp only [controlLetters, List.mem_cons, Prod.mk.injEq, List.not_mem_nil, or_false] at hc
    rcases hc with ⟨rfl, rfl⟩ | ⟨rfl, rfl⟩ | ⟨rfl, rfl⟩ | ⟨rfl, rfl⟩ | ⟨rfl, rfl⟩ | ⟨rfl, rfl⟩ <;>
      exact ⟨_, rfl, rfl⟩
  | zero hbehind =>
    refine ⟨some 0, ?_, rfl⟩
    cases behind <;> simp_all [escape]
  | @byte digits hlength hdigits =>
    refine ⟨some (hexNumber digits), ?_, (escapeUnits_some (hexNumber_lt (by omega))).symm⟩
    exact congrArg (Except.map _) (fixedHex_eq_ok_iff.2 ⟨digits, rfl, hlength, hdigits, rfl⟩)
  | @unit digits hlength hdigits =>
    refine ⟨some (hexNumber digits), ?_, (escapeUnits_some (hexNumber_lt (by omega))).symm⟩
    rw [List.cons_append, escape.eq_10]
    · exact congrArg (Except.map _) (fixedHex_eq_ok_iff.2 ⟨digits, rfl, hlength, hdigits, rfl⟩)
    · rintro rest hrest
      cases digits with
      | nil => cases hlength
      | cons d more =>
        obtain ⟨rfl, -⟩ := List.cons.inj hrest
        exact absurd (hdigits _ (List.mem_cons_self ..)) (by decide)
  | @point digits hne hdigits hmax =>
    refine ⟨some (hexNumber digits), ?_, (List.flatMap_singleton ..).symm⟩
    have hread : bracedHex (digits ++ '\x7d' :: behind) = .ok (hexNumber digits, behind) :=
      bracedHex_eq_ok_iff.2 ⟨digits, rfl, hne, hdigits, hmax, rfl⟩
    rw [List.cons_append, List.cons_append, List.append_assoc, List.singleton_append]
    exact congrArg (Except.map _) hread
  | joined hc hbehind =>
    refine ⟨none, ?_, rfl⟩
    simp only [lineEnds, List.mem_cons, List.not_mem_nil, or_false] at hc
    rcases hc with rfl | rfl | rfl | rfl
    · rfl
    · rw [List.singleton_append, escape.eq_12]
      · rfl
      case x_10 =>
        rintro rest - rfl
        exact hbehind rfl rfl
      all_goals simp
    · rfl
    · rfl
  | joinedBoth => exact ⟨none, rfl, rfl⟩
  | @itself c hc =>
    exact ⟨some c.toNat, escape_of_not_reserved hc behind, (List.flatMap_singleton ..).symm⟩

/-! ## Bodies -/

/-- A body that stands for a text is one of the grammar. -/
lemma exists_names_of_unescapeFrom {waiting : Option Nat} {cs text : List Char}
    (hwaiting : ∀ high ∈ waiting, isHighSurrogate high = true)
    (h : unescapeFrom waiting cs = .ok text) :
    ∃ units, Names cs units ∧ text = joinUnits (waiting.toList ++ units) := by
  fun_induction unescapeFrom waiting cs generalizing text with
  | case1 waiting =>
    obtain rfl := Except.ok.inj h
    refine ⟨[], .nil, ?_⟩
    rw [joinUnits_waiting hwaiting (by rfl), joinUnits, List.append_nil]
  | case2 => cases h
  | case3 waiting rest behind hescape ih =>
    obtain ⟨form, rfl, hform, -⟩ := exists_form_of_escape hescape
    obtain ⟨units, hnames, rfl⟩ := ih hwaiting h
    exact ⟨units, .escape hform hnames, rfl⟩
  | case4 waiting rest n behind hescape ih =>
    obtain ⟨form, rfl, hform, hmax⟩ := exists_form_of_escape hescape
    rcases hrest : unescapeFrom (pushPoint waiting n).2 behind with e | tail
    · simp [hrest, Except.map] at h
    · rw [hrest] at h
      obtain rfl := Except.ok.inj h
      obtain ⟨units, hnames, rfl⟩ := ih (isHighSurrogate_of_pushPoint waiting n) hrest
      refine ⟨escapeUnits (some n) ++ units, .escape hform hnames, ?_⟩
      rw [escapeUnits, Option.toList_some, List.flatMap_singleton]
      exact (joinUnits_pushPoint hwaiting (hmax n rfl) units).symm
  | case5 waiting c rest hc ih =>
    rcases hrest : unescapeFrom none rest with e | tail
    · simp [hrest, Except.map] at h
    · rw [hrest] at h
      obtain rfl := Except.ok.inj h
      obtain ⟨units, hnames, rfl⟩ := ih waiting_none hrest
      exact ⟨unitsOf c.toNat ++ units, .plain hc hnames, (joinUnits_char hwaiting c units).symm⟩

/-- A body of the grammar stands for the text of its code units. -/
lemma unescapeFrom_of_names {cs : List Char} {units : List Nat} (h : Names cs units)
    {waiting : Option Nat} (hwaiting : ∀ high ∈ waiting, isHighSurrogate high = true) :
    unescapeFrom waiting cs = .ok (joinUnits (waiting.toList ++ units)) := by
  induction h generalizing waiting with
  | nil =>
    rw [unescapeFrom, joinUnits_waiting hwaiting (by rfl), joinUnits, List.append_nil]
  | @plain c behind units hc _ ih =>
    rw [unescapeFrom_plain hc, ih waiting_none, joinUnits_char hwaiting]
    rfl
  | @escape form behind units more hform _ ih =>
    obtain ⟨point, hescape, rfl⟩ := exists_escape_of_form hform
    cases point with
    | none => rw [unescapeFrom_joinedLine hescape, ih hwaiting]; rfl
    | some n =>
      obtain ⟨_, -, -, hmax⟩ := exists_form_of_escape hescape
      rw [unescapeFrom_escape hescape, ih (isHighSurrogate_of_pushPoint waiting n), escapeUnits,
        Option.toList_some, List.flatMap_singleton, joinUnits_pushPoint hwaiting (hmax n rfl)]
      rfl

/-- **The bodies that stand for a text** are those of the grammar, and the text is what the code
units that they name encode, every surrogate without a partner replaced.

**Proof sketch.** Both directions are inductions over the body, one escape sequence at a time, with
the code units that are pending as what they carry (`joinUnits_pushPoint`). -/
theorem unescape_eq_ok_iff (raw text : List Char) :
    unescape raw = .ok text ↔ ∃ units, Names raw units ∧ text = joinUnits units := by
  constructor
  · exact exists_names_of_unescapeFrom waiting_none
  · rintro ⟨units, hnames, rfl⟩
    exact unescapeFrom_of_names hnames waiting_none

/-- The halves of a pair meet across a joined line, whatever kinds of escapes they are. -/
example : unescape "\\uD83D\\\n\\u\x7bDE00\x7d\\uD83Dx".toList = .ok ['😀', '\uFFFD', 'x'] := by
  cbv

end CardTable.Script
