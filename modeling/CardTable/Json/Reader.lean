import CardTable.Json.Numeral
import CardTable.Text.Hex

set_option autoImplicit false

/-!
# Reading JSON texts

A text is first cut into tokens: punctuation, the three words, string literals and numerals. The
tokens are then taken one by one against a stack of the lists and mappings that are still open.
Of several fields with one name the last entry counts, at the place of the first.

## Main definitions

* `CardTable.Json.Token` and `CardTable.Json.tokens?` — the tokens of a text.
* `CardTable.Json.Progress` — what has been read and what may come next.
* `CardTable.Json.read?` — the value of a text, if it is one.
-/

namespace CardTable.Json

open CardTable.Text (digitsValue hexValue?)

/-! ## Tokens -/

/-- A token of a JSON text. -/
inductive Token where
  | openList | closeList | openMapping | closeMapping | comma | colon
  /-- A word or a numeral, by its value. -/
  | scalar (v : Value)
  /-- A string literal. -/
  | text (s : String)

/-- The number written by four hexadecimal digits at the front, and what is behind them. -/
def fourHex? : List Char → Option (Nat × List Char)
  | a :: b :: c :: d :: rest => do
    let a ← hexValue? a
    let b ← hexValue? b
    let c ← hexValue? c
    let d ← hexValue? d
    some (((a * 16 + b) * 16 + c) * 16 + d, rest)
  | _ => none

/-- The character of an escape by code unit, the text standing behind `\u`, and what is behind it.
A high surrogate needs a low one in an escape of its own right behind it. -/
def unitEscape? (cs : List Char) : Option (Char × List Char) := do
  let (unit, rest) ← fourHex? cs
  if 0xD800 ≤ unit ∧ unit < 0xDC00 then
    match rest with
    | '\\' :: 'u' :: rest =>
      let (low, rest) ← fourHex? rest
      if 0xDC00 ≤ low ∧ low < 0xE000 then
        some (Char.ofNat (0x10000 + (unit - 0xD800) * 0x400 + (low - 0xDC00)), rest)
      else none
    | _ => none
  else if 0xDC00 ≤ unit ∧ unit < 0xE000 then none
  else some (Char.ofNat unit, rest)

/-- The character of an escape, the text standing behind the backslash, and what is behind it. -/
def escape? : List Char → Option (Char × List Char)
  | '"' :: rest => some ('"', rest)
  | '\\' :: rest => some ('\\', rest)
  | '/' :: rest => some ('/', rest)
  | 'b' :: rest => some ('\x08', rest)
  | 'f' :: rest => some ('\x0c', rest)
  | 'n' :: rest => some ('\n', rest)
  | 'r' :: rest => some ('\r', rest)
  | 't' :: rest => some ('\t', rest)
  | 'u' :: rest => unitEscape? rest
  | _ => none

/-- Four hexadecimal digits are taken off the text. -/
theorem length_of_fourHex? {cs rest : List Char} {n : Nat} (h : fourHex? cs = some (n, rest)) :
    rest.length < cs.length := by
  unfold fourHex? at h
  split at h
  · simp only [Option.bind_eq_bind, Option.bind_eq_some_iff, Option.some.injEq,
      Prod.mk.injEq] at h
    obtain ⟨_, _, _, _, _, _, _, _, _, rfl⟩ := h
    simp only [List.length_cons]
    omega
  · simp at h

/-- An escape by code unit is taken off the text. -/
theorem length_of_unitEscape? {cs rest : List Char} {c : Char}
    (h : unitEscape? cs = some (c, rest)) : rest.length < cs.length := by
  simp only [unitEscape?, Option.bind_eq_bind, Option.bind_eq_some_iff, Prod.exists] at h
  obtain ⟨unit, behind, hunit, h⟩ := h
  have hfirst := length_of_fourHex? hunit
  split at h
  · split at h
    · next low =>
      simp only [Option.bind_eq_some_iff, Prod.exists] at h
      obtain ⟨_, _, hlow, h⟩ := h
      have hsecond := length_of_fourHex? hlow
      split at h
      · simp only [Option.some.injEq, Prod.mk.injEq] at h
        obtain ⟨_, rfl⟩ := h
        simp only [List.length_cons] at hfirst
        omega
      · simp at h
    · simp at h
  · split at h
    · simp at h
    · simp only [Option.some.injEq, Prod.mk.injEq] at h
      exact h.2 ▸ hfirst

/-- An escape is taken off the text. -/
theorem length_of_escape? {cs rest : List Char} {c : Char} (h : escape? cs = some (c, rest)) :
    rest.length < cs.length := by
  unfold escape? at h
  split at h
  case h_9 => exact Nat.lt_succ_of_lt (length_of_unitEscape? h)
  case h_10 => simp at h
  all_goals
    simp only [Option.some.injEq, Prod.mk.injEq] at h
    simp [h.2]

/-- The characters of a string literal up to its closing quote, and what is behind it. -/
def stringBody? : List Char → Option (List Char × List Char)
  | [] => none
  | c :: rest =>
    if c = '"' then some ([], rest)
    else if c = '\\' then
      match _h : escape? rest with
      | none => none
      | some (c, after) => (stringBody? after).map fun (body, behind) => (c :: body, behind)
    else if c.toNat < 0x20 then none
    else (stringBody? rest).map fun (body, behind) => (c :: body, behind)
termination_by cs => cs.length
decreasing_by
  · exact Nat.lt_succ_of_lt (length_of_escape? _h)
  · exact Nat.lt_succ_self _

/-- The closing quote is taken off the text. -/
theorem length_of_stringBody? {cs body rest : List Char} (h : stringBody? cs = some (body, rest)) :
    rest.length < cs.length := by
  fun_induction stringBody? cs generalizing body with
  | case1 => simp at h
  | case2 tail =>
    simp only [Option.some.injEq, Prod.mk.injEq] at h
    simp [h.2]
  | case3 => simp at h
  | case4 tail c after hesc _ ih =>
    simp only [Option.map_eq_some_iff, Prod.mk.injEq, Prod.exists] at h
    obtain ⟨_, _, htail, _, rfl⟩ := h
    have := length_of_escape? hesc
    have := ih htail
    simp only [List.length_cons]
    omega
  | case5 => simp at h
  | case6 c tail _ _ _ ih =>
    simp only [Option.map_eq_some_iff, Prod.mk.injEq, Prod.exists] at h
    obtain ⟨_, _, htail, _, rfl⟩ := h
    have := ih htail
    simp only [List.length_cons]
    omega

/-- A minus sign at the front of a text, and what is behind it. -/
def minusSign : List Char → Bool × List Char
  | '-' :: rest => (true, rest)
  | cs => (false, cs)

/-- The digits before the decimal point: a zero stands alone. -/
def wholeDigits (cs : List Char) : List Char :=
  if cs.head? = some '0' then ['0'] else cs.takeWhile Char.isDigit

/-- The fraction at the front of a text, if there is one, and what is behind it. -/
def fractionPart? : List Char → Option (Option (List Char) × List Char)
  | '.' :: rest =>
    let digits := rest.takeWhile Char.isDigit
    if digits.isEmpty then none else some (some digits, rest.dropWhile Char.isDigit)
  | cs => some (none, cs)

/-- The sign of an exponent, and what is behind it. -/
def exponentSign : List Char → Bool × List Char
  | '+' :: rest => (false, rest)
  | cs => minusSign cs

/-- The exponent at the front of a text, if there is one, and what is behind it. -/
def exponentPart? (cs : List Char) : Option (Option Int × List Char) :=
  match cs with
  | c :: rest =>
    if c = 'e' ∨ c = 'E' then
      let (negative, rest) := exponentSign rest
      let digits := rest.takeWhile Char.isDigit
      let n : Int := digitsValue digits
      if digits.isEmpty then none
      else some (some (if negative then -n else n), rest.dropWhile Char.isDigit)
    else some (none, cs)
  | [] => some (none, cs)

/-- The numeral at the front of a text, and what is behind it. -/
def numeral? (cs : List Char) : Option (Numeral × List Char) :=
  let (negative, cs) := minusSign cs
  let whole := wholeDigits cs
  if whole.isEmpty then none
  else do
    let (fraction, cs) ← fractionPart? (cs.drop whole.length)
    let (exponent, cs) ← exponentPart? cs
    some (⟨negative, whole, fraction, exponent⟩, cs)

/-- What is behind a run of characters is no longer than the text. -/
theorem length_dropWhile_le {p : Char → Bool} (cs : List Char) :
    (cs.dropWhile p).length ≤ cs.length :=
  (List.dropWhile_sublist p).length_le

/-- What is behind a minus sign is no longer than the text. -/
theorem length_minusSign_le (cs : List Char) : (minusSign cs).2.length ≤ cs.length := by
  unfold minusSign
  split <;> simp

/-- What is behind a fraction is no longer than the text. -/
theorem length_of_fractionPart? {cs rest : List Char} {fraction : Option (List Char)}
    (h : fractionPart? cs = some (fraction, rest)) : rest.length ≤ cs.length := by
  unfold fractionPart? at h
  split at h
  · next tail =>
    simp only [Option.ite_none_left_eq_some, Option.some.injEq, Prod.mk.injEq] at h
    obtain ⟨_, _, rfl⟩ := h
    exact Nat.le_succ_of_le (length_dropWhile_le tail)
  · simp only [Option.some.injEq, Prod.mk.injEq] at h
    exact h.2 ▸ Nat.le_refl _

/-- What is behind an exponent is no longer than the text. -/
theorem length_of_exponentPart? {cs rest : List Char} {exponent : Option Int}
    (h : exponentPart? cs = some (exponent, rest)) : rest.length ≤ cs.length := by
  unfold exponentPart? at h
  split at h
  · next c tail =>
    split at h
    · simp only [Option.ite_none_left_eq_some, Option.some.injEq, Prod.mk.injEq] at h
      obtain ⟨_, _, rfl⟩ := h
      have hsign : (exponentSign tail).2.length ≤ tail.length := by
        unfold exponentSign
        split
        · simp
        · exact length_minusSign_le tail
      have hdrop := length_dropWhile_le (p := Char.isDigit) (exponentSign tail).2
      simp only [List.length_cons]
      omega
    · simp only [Option.some.injEq, Prod.mk.injEq] at h
      exact h.2 ▸ Nat.le_refl _
  · simp only [Option.some.injEq, Prod.mk.injEq] at h
    exact h.2 ▸ Nat.le_refl _

/-- A numeral is taken off the text. -/
theorem length_of_numeral? {cs rest : List Char} {numeral : Numeral}
    (h : numeral? cs = some (numeral, rest)) : rest.length < cs.length := by
  simp only [numeral?, Option.ite_none_left_eq_some, Option.bind_eq_bind, Option.bind_eq_some_iff,
    Prod.exists, Option.some.injEq, Prod.mk.injEq] at h
  obtain ⟨hne, _, behind, hfraction, _, _, hexponent, _, rfl⟩ := h
  have hsign := length_minusSign_le cs
  have hwhole : 0 < (wholeDigits (minusSign cs).2).length := by
    simpa [List.length_pos_iff, List.isEmpty_iff] using hne
  have hpos : 0 < (minusSign cs).2.length := by
    rcases hcs : (minusSign cs).2 with _ | _
    · simp [hcs, wholeDigits] at hwhole
    · simp
  have hfirst := length_of_fractionPart? hfraction
  have hsecond := length_of_exponentPart? hexponent
  simp only [List.length_drop] at hfirst
  omega

/-- The token at the front of a text that does not begin with white space, and what is behind it. -/
def token? : List Char → Option (Token × List Char)
  | '[' :: rest => some (.openList, rest)
  | ']' :: rest => some (.closeList, rest)
  | '\x7b' :: rest => some (.openMapping, rest)
  | '\x7d' :: rest => some (.closeMapping, rest)
  | ',' :: rest => some (.comma, rest)
  | ':' :: rest => some (.colon, rest)
  | '"' :: rest => (stringBody? rest).map fun (body, behind) => (.text (String.ofList body), behind)
  | 'n' :: 'u' :: 'l' :: 'l' :: rest => some (.scalar .null, rest)
  | 't' :: 'r' :: 'u' :: 'e' :: rest => some (.scalar (.bool true), rest)
  | 'f' :: 'a' :: 'l' :: 's' :: 'e' :: rest => some (.scalar (.bool false), rest)
  | cs => do
    let (numeral, behind) ← numeral? cs
    let n ← numeral.value?
    some (.scalar (.num n), behind)

/-- A token is taken off the text. -/
theorem length_of_token? {cs rest : List Char} {token : Token}
    (h : token? cs = some (token, rest)) : rest.length < cs.length := by
  unfold token? at h
  split at h
  case h_7 tail =>
    simp only [Option.map_eq_some_iff, Prod.mk.injEq, Prod.exists] at h
    obtain ⟨_, _, hbody, _, rfl⟩ := h
    exact Nat.lt_succ_of_lt (length_of_stringBody? hbody)
  case h_11 =>
    simp only [Option.bind_eq_bind, Option.bind_eq_some_iff, Prod.exists, Option.some.injEq,
      Prod.mk.injEq] at h
    obtain ⟨_, _, hnumeral, _, _, _, rfl⟩ := h
    exact length_of_numeral? hnumeral
  all_goals
    simp only [Option.some.injEq, Prod.mk.injEq] at h
    obtain ⟨_, rfl⟩ := h
    simp only [List.length_cons]
    omega

/-- Whether `c` may stand between tokens. -/
def isBlank (c : Char) : Bool :=
  c == ' ' || c == '\t' || c == '\n' || c == '\r'

/-- The tokens of a text, if it consists of tokens and blanks. -/
def tokens? (cs : List Char) : Option (List Token) :=
  match cs with
  | [] => some []
  | c :: rest =>
    if isBlank c then tokens? rest
    else
      match _h : token? (c :: rest) with
      | none => none
      | some (token, behind) => (tokens? behind).map (token :: ·)
termination_by cs.length
decreasing_by
  · exact Nat.lt_succ_self _
  · exact length_of_token? _h

/-- A text that does not begin with a blank begins with a token. -/
theorem tokens?_of_not_isBlank {c : Char} (rest : List Char) (h : isBlank c = false) :
    tokens? (c :: rest) =
      (token? (c :: rest)).bind fun (token, behind) => (tokens? behind).map (token :: ·) := by
  rw [tokens?, h]
  simp only [Bool.false_eq_true, if_false]
  split <;> next heq => rw [heq]; rfl

/-- The token at the front of a text comes first. -/
theorem tokens?_cons {c : Char} {rest behind : List Char} {token : Token}
    (hblank : isBlank c = false)
    (h : token? (c :: rest) = some (token, behind)) :
    tokens? (c :: rest) = (tokens? behind).map (token :: ·) := by
  rw [tokens?_of_not_isBlank rest hblank, h]
  rfl

/-! ## Values -/

/-- A list or mapping that is still open, with what it holds so far. -/
inductive Frame where
  /-- A list, and its items in reverse. -/
  | list (items : List Value)
  /-- A mapping, its entries in reverse, and the name whose entry is being read. -/
  | mapping (entries : List (String × Value)) (name : String)

/-- What has been read, by what may come next. The open lists and mappings stand innermost first. -/
inductive Progress where
  /-- A value must come. -/
  | value (open_ : List Frame)
  /-- A list has been opened: its first item or its end comes. -/
  | firstItem (open_ : List Frame)
  /-- A mapping has been opened: its first name or its end comes. -/
  | firstName (open_ : List Frame)
  /-- A further name of a mapping must come. -/
  | name (open_ : List Frame) (entries : List (String × Value))
  /-- The colon behind a name must come. -/
  | colon (open_ : List Frame) (entries : List (String × Value)) (name : String)
  /-- A value is complete: the enclosing list or mapping goes on or ends. -/
  | complete (open_ : List Frame) (v : Value)

/-- The number of lists and mappings that may be open inside each other. -/
abbrev depthLimit : Nat := 127

namespace Progress

/-- Begins a value with its first token. -/
def beginValue (open_ : List Frame) : Token → Option Progress
  | .scalar v => some (.complete open_ v)
  | .text s => some (.complete open_ (.str s))
  | .openList => if open_.length < depthLimit then some (.firstItem open_) else none
  | .openMapping => if open_.length < depthLimit then some (.firstName open_) else none
  | _ => none

/-- Takes one token. -/
def step : Progress → Token → Option Progress
  | .value open_, t => beginValue open_ t
  | .firstItem open_, .closeList => some (.complete open_ (.list []))
  | .firstItem open_, t => beginValue (.list [] :: open_) t
  | .firstName open_, .closeMapping => some (.complete open_ (.mapping []))
  | .firstName open_, .text s => some (.colon open_ [] s)
  | .name open_ entries, .text s => some (.colon open_ entries s)
  | .colon open_ entries s, .colon => some (.value (.mapping entries s :: open_))
  | .complete (.list items :: open_) v, .comma => some (.value (.list (v :: items) :: open_))
  | .complete (.list items :: open_) v, .closeList =>
    some (.complete open_ (.list (v :: items).reverse))
  | .complete (.mapping entries s :: open_) v, .comma => some (.name open_ ((s, v) :: entries))
  | .complete (.mapping entries s :: open_) v, .closeMapping =>
    some (.complete open_ (.mapping (Fields.ofEntries ((s, v) :: entries).reverse)))
  | _, _ => none

/-- The value read, if nothing is left open. -/
def result? : Progress → Option Value
  | .complete [] v => some v
  | _ => none

end Progress

/-- The value of the tokens, if they are those of one value. -/
def valueOfTokens? (ts : List Token) : Option Value :=
  (ts.foldlM Progress.step (.value [])).bind Progress.result?

/-- The value of the text `s`, if it is the JSON text of one. -/
def read? (s : String) : Option Value :=
  (tokens? s.toList).bind valueOfTokens?

end CardTable.Json
