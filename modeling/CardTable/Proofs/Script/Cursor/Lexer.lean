import CardTable.Script.Eval
import Mathlib.Tactic.Lemma

set_option autoImplicit false

/-!
# Lexing with a cursor

A text can be cut into tokens in place. A cursor moves along the bytes of the text: characters are
read where it stands, and stretches are cut out between two of its positions. Such a run can go
wrong in ways that a function on lists of characters cannot. A position may lie inside a character
or behind the end, a count may fall below zero, and a loop may go on for ever. Here all of this is
part of what a run gives.

## Main definitions

* `CardTable.Script.Run` — what a run gives, if it gives anything.
* `CardTable.Script.Run.Ends` — a run that ends, with a result or with a failure that is reported.
* `CardTable.Script.Cursor.rest`, `CardTable.Script.Cursor.slice` — the text behind a position, and
  between two of them.
* `CardTable.Script.Cursor.tokenize` — the tokens of a text, cut off with a cursor.

## Main results

* `CardTable.Script.Cursor.behind?_eq_some_iff` — the positions at which a text can be cut.
-/

namespace CardTable.Script

/-! ## Runs -/

/-- How a run can stop without a result. -/
inductive Stop where
  /-- With a failure that is reported. -/
  | failure (f : Failure)
  /-- At a step that cannot be made: at a place outside a list or inside a character, or at a number
  below zero or beyond its word. -/
  | crash

/-- What a run gives: a result or a stop, and `none` if it never ends. -/
abbrev Run (α : Type) : Type := ExceptT Stop Option α

namespace Run

variable {α β : Type}

/-- A step that cannot be made. -/
def crash : Run α := throw .crash

/-- A run that ends with a failure. -/
def fail (f : Failure) : Run α := throw (.failure f)

/-- A run that stops where a function fails: an overflow is not reported, all other failures are. -/
def halt : Failure → Run α
  | .overflow => crash
  | f => fail f

/-- A run that ends as a function does. -/
def ofExcept : Except Failure α → Run α
  | .ok a => pure a
  | .error f => halt f

/-- The run ends, with a result that satisfies `P` or with a failure that satisfies `Q`. -/
def Ends (P : α → Prop) (Q : Failure → Prop) (r : Run α) : Prop :=
  match r.run with
  | some (.ok a) => P a
  | some (.error (.failure f)) => Q f
  | some (.error .crash) | none => False

/-- A run whose first step ends with a failure. -/
@[simp] lemma fail_bind (f : Failure) (k : α → Run β) : (fail f >>= k) = fail f :=
  rfl

/-- A run whose first step stops. -/
@[simp] lemma halt_bind (f : Failure) (k : α → Run β) : (halt f >>= k) = halt f := by
  cases f <;> rfl

/-- A failure that is no overflow is reported. -/
lemma halt_of_ne {f : Failure} (h : f ≠ .overflow) : (halt f : Run α) = fail f := by
  cases f <;> first | rfl | exact absurd rfl h

end Run

namespace Cursor

/-! ## Positions -/

/-- The text behind its first `n` bytes, if a character begins there or the text ends. -/
def behind? (n : Nat) : List Char → Option (List Char)
  | [] => if n = 0 then some [] else none
  | c :: cs =>
    if n = 0 then some (c :: cs)
    else if c.utf8Size ≤ n then behind? (n - c.utf8Size) cs else none

/-- **A text is cut between its characters only.** -/
theorem behind?_eq_some_iff {n : Nat} {cs left : List Char} :
    behind? n cs = some left ↔ ∃ front, cs = front ++ left ∧ Text.byteCount front = n := by
  induction cs generalizing n with
  | nil =>
    rw [behind?]
    constructor
    · intro h
      split at h
      · next hn =>
        obtain rfl := Option.some.inj h
        exact ⟨[], rfl, hn.symm⟩
      · cases h
    · rintro ⟨front, hfront, rfl⟩
      obtain ⟨rfl, rfl⟩ := List.append_eq_nil_iff.1 hfront.symm
      rfl
  | cons c cs ih =>
    rw [behind?]
    constructor
    · intro h
      split at h
      · next hn =>
        obtain rfl := Option.some.inj h
        exact ⟨[], rfl, hn.symm⟩
      split at h
      · next hsize =>
        obtain ⟨front, rfl, hfront⟩ := ih.1 h
        exact ⟨c :: front, rfl, by rw [Text.byteCount]; omega⟩
      · cases h
    · rintro ⟨front, hfront, rfl⟩
      cases front with
      | nil =>
        obtain rfl : c :: cs = left := hfront
        rfl
      | cons d front =>
        obtain ⟨rfl, rfl⟩ := List.cons.inj hfront
        have hpos := c.utf8Size_pos
        rw [Text.byteCount, if_neg (by omega), if_pos (by omega)]
        exact ih.2 ⟨front, rfl, by omega⟩

/-- A text, and the offset at which it stands. -/
structure Input where
  /-- Its characters. -/
  src : List Char
  /-- The offset of the first one. -/
  base : Nat

section Text

variable (input : Input)

/-- The text behind the position `pos`. -/
def rest (pos : Nat) : Run (List Char) :=
  match behind? pos input.src with
  | some cs => pure cs
  | none => Run.crash

/-- The text from the position `start` up to the position `stop`. -/
def slice (start stop : Nat) : Run (List Char) := do
  let cs ← rest input start
  let left ← rest input stop
  if start ≤ stop then pure (cs.take (cs.length - left.length)) else Run.crash

/-- The character at the position `pos`. -/
def peek (pos : Nat) : Run (Option Char) :=
  return (← rest input pos).head?

/-- The character `n` characters behind the position `pos`. -/
def peekAt (pos n : Nat) : Run (Option Char) :=
  return (← rest input pos)[n]?

/-- The character at the position `pos`, and the position behind it. -/
def bump (pos : Nat) : Run (Option Char × Nat) := do
  match ← peek input pos with
  | some c => return (some c, pos + c.utf8Size)
  | none => return (none, pos)

/-- The position behind the character at `pos`. -/
def step (pos : Nat) : Run Nat :=
  return (← bump input pos).2

end Text

/-- The position behind the characters that satisfy `p`. -/
def Input.skipWhile (input : Input) (p : Char → Bool) (pos : Nat) : Run Nat := do
  match ← peek input pos with
  | some c => if p c then input |>.skipWhile p (← step input pos) else return pos
  | none => return pos
partial_fixpoint

/-- One less than a count. -/
def decrement : Nat → Run Nat
  | 0 => Run.crash
  | n + 1 => pure n

/-- The number of bytes in front of the first place at which `pattern` stands. -/
def find? (pattern : List Char) : List Char → Option Nat
  | [] => if pattern = [] then some 0 else none
  | c :: cs =>
    if pattern.isPrefixOf (c :: cs) then some 0 else (find? pattern cs).map (c.utf8Size + ·)

/-! ## Tokens -/

/-- What a token is. -/
inductive Kind where
  /-- A name or keyword. -/
  | word (name : String)
  /-- A string literal, by the text it stands for. -/
  | text (s : String)
  /-- A numeric literal. -/
  | number (x : Option Double)
  /-- A template: its chunks, and the stretches between them, each with its offset. -/
  | template (chunks : List String) (stretches : List (Nat × List Char))
  /-- Any other sign. -/
  | sign (s : Sign)
  /-- The end of the text. -/
  | finish

/-- A token where it stands. -/
structure Tok where
  /-- What it is. -/
  kind : Kind
  /-- The offset of its first character. -/
  offset : Nat
  /-- Whether a line break lies between it and the token in front of it. -/
  afterBreak : Bool

/-! ## The lexer

All offsets are those of positions in the text, shifted by its own. -/

section Lexer

variable (input : Input)

/-- A breach of the syntax at the position `pos`. -/
def fault {α : Type} (pos : Nat) (problem : Problem) : Run α :=
  Run.fail (.fault ⟨input.base + pos, problem⟩)

/-- The position behind the white space and comments at `pos`. -/
def Input.skipTrivia (input : Input) (pos : Nat) : Run Nat := do
  let first ← peek input pos
  let second ← peekAt input pos 1
  if first.any isGap then
    input |>.skipTrivia (← step input pos)
  else if first = some '/' ∧ second = some '/' then
    input |>.skipTrivia (← input.skipWhile (fun c => !isBreak c) pos)
  else if first = some '/' ∧ second = some '*' then
    match find? ['*', '/'] (← rest input (pos + 2)) with
    | some n => input |>.skipTrivia (pos + 2 + n + 2)
    | none => fault input pos .unterminatedComment
  else return pos
partial_fixpoint

/-- The base that the first two characters of a numeric literal announce. -/
def announced? : Option Char → Option Char → Option Nat
  | some '0', some letter => radixOf? letter
  | _, _ => none

/-- The unsigned 64-bit word that `digits` write in the given base. -/
def wordValue? (radix : Nat) (digits : List Char) : Option Nat :=
  (radixValue? radix digits).filter fun n => digits ≠ [] ∧ n < 18446744073709551616

/-- The double that a decimal literal stands for. -/
def decimalValue? (literal : List Char) : Option (Option Double) :=
  match decimalNumeral (locate 0 literal) with
  | .ok (x, []) => some x
  | _ => none

/-- The position behind the fraction at `pos`. -/
def skipFraction (pos : Nat) : Run Nat := do
  if (← peek input pos) = some '.' then input.skipWhile isDigitOrLine (← step input pos)
  else return pos

/-- The position behind the sign of an exponent at `pos`. -/
def skipSign (pos : Nat) : Run Nat := do
  let sign ← peek input pos
  if sign = some '+' ∨ sign = some '-' then step input pos else return pos

/-- The position behind the exponent at `pos`. -/
def skipExponent (pos : Nat) : Run Nat := do
  let letter ← peek input pos
  if letter = some 'e' ∨ letter = some 'E' then
    input.skipWhile Char.isDigit (← skipSign input (← step input pos))
  else return pos

/-- The numeric literal at `pos`, and the position behind it. -/
def number (pos : Nat) : Run (Option Double × Nat) := do
  match announced? (← peek input pos) (← peekAt input pos 1) with
  | some radix =>
    let stop ← input.skipWhile (fun c => c.isAlphanum || c == '_') (pos + 2)
    match wordValue? radix ((← slice input (pos + 2) stop).filter (· != '_')) with
    | some n => return (Double.ofInt? n, stop)
    | none => fault input pos .malformedNumber
  | none =>
    let stop ← skipExponent input (← skipFraction input (← input.skipWhile isDigitOrLine pos))
    let next ← peek input stop
    if next = some 'n' then fault input pos .bigInteger
    else if next.any startsWord then fault input pos .wordBehindNumber
    else
      match decimalValue? (← slice input pos stop) with
      | some x => return (x, stop)
      | none => fault input pos .malformedNumber

/-- The position behind the closing quote of the string literal that begins at `start`, from `pos`
on. -/
def Input.skipString (input : Input) (start : Nat) (quote : Char) (pos : Nat) : Run Nat := do
  let (first, pos) ← bump input pos
  match first with
  | none => fault input start .unterminatedString
  | some c =>
    if c = '\\' then
      let (escaped, pos) ← bump input pos
      if escaped = some '\r' ∧ (← peek input pos) = some '\n' then
        input |>.skipString start quote (← step input pos)
      else input |>.skipString start quote pos
    else if c = quote then return pos
    else if c = '\n' ∨ c = '\r' then fault input start .unterminatedString
    else input |>.skipString start quote pos
partial_fixpoint

/-- The string literal at `pos`, and the position behind it. -/
def quoted (quote : Char) (pos : Nat) : Run (String × Nat) := do
  let start ← step input pos
  let stop ← input.skipString pos quote start
  match unescape (← slice input start (← decrement stop)) with
  | .ok text => return (String.ofList text, stop)
  | .error e => fault input pos (.escape e)

/-- The text of the chunk from `from` up to `to` of the template that begins at `start`. -/
def cook (start chunkStart chunkStop : Nat) : Run String := do
  match cookChunk (input.base + start) (← slice input chunkStart chunkStop) with
  | .ok text => return text
  | .error f => Run.fail (.fault f)

mutual

/-- The rest of the template that begins at `start`, from `pos` in the chunk that begins at
`chunkStart` on; `chunks` and `stretches` have been read. -/
def Input.template (input : Input) (start chunkStart : Nat) (chunks : List String)
    (stretches : List (Nat × List Char)) (pos : Nat) :
    Run ((List String × List (Nat × List Char)) × Nat) := do
  match ← peek input pos with
  | none => fault input start .unterminatedTemplate
  | some c =>
    if c = '\\' then
      input |>.template start chunkStart chunks stretches (← step input (← step input pos))
    else if c = '\x60' then
      let chunk ← cook input start chunkStart pos
      return ((chunks ++ [chunk], stretches), ← step input pos)
    else if c = '$' ∧ (← peekAt input pos 1) = some '\x7b' then
      let chunk ← cook input start chunkStart pos
      let stop ← input |>.skipSubstitution start 0 (pos + 2)
      let stretch := (input.base + (pos + 2), ← slice input (pos + 2) stop)
      let next ← step input stop
      input |>.template start next (chunks ++ [chunk]) (stretches ++ [stretch]) next
    else input |>.template start chunkStart chunks stretches (← step input pos)
partial_fixpoint

/-- The position of the brace that closes a substitution of the template that begins at `start`,
from `pos` inside `depth` further braces on. -/
def Input.skipSubstitution (input : Input) (start depth pos : Nat) : Run Nat := do
  match ← peek input pos with
  | none => fault input start .unterminatedSubstitution
  | some c =>
    if c = '\x7d' then
      if depth = 0 then return pos
      else input |>.skipSubstitution start (← decrement depth) (← step input pos)
    else if c = '\x7b' then input |>.skipSubstitution start (depth + 1) (← step input pos)
    else if c = '\'' ∨ c = '"' then
      let (_, pos) ← quoted input c pos
      input |>.skipSubstitution start depth pos
    else if c = '\x60' then
      let first ← step input pos
      let (_, pos) ← input |>.template pos first [] [] first
      input |>.skipSubstitution start depth pos
    else input |>.skipSubstitution start depth (← step input pos)
partial_fixpoint

end

/-- What the token is whose first character `c` stands at `pos`, and the position behind it. -/
def kindAt (c : Char) (pos : Nat) : Run (Kind × Nat) := do
  let second ← peekAt input pos 1
  if startsWord c then
    let stop ← input.skipWhile continuesWord pos
    return (.word (String.ofList (← slice input pos stop)), stop)
  else if c.isDigit ∨ c = '.' ∧ second.any Char.isDigit then
    let (x, stop) ← number input pos
    return (.number x, stop)
  else if c = '\'' ∨ c = '"' then
    let (s, stop) ← quoted input c pos
    return (.text s, stop)
  else if c = '\x60' then
    let first ← step input pos
    let ((chunks, stretches), stop) ← input.template pos first [] [] first
    return (.template chunks stretches, stop)
  else if ['.', '.', '.'].isPrefixOf (← rest input pos) then
    return (.sign .spread, pos + 3)
  else if c = '?' ∧ second = some '.' ∧ ¬ (← peekAt input pos 2).any Char.isDigit then
    return (.sign .optionalDot, pos + 2)
  else return (.sign (.punct c), ← step input pos)

/-- The token behind `pos`, and the position behind it. -/
def nextToken (pos : Nat) : Run (Tok × Nat) := do
  let start ← input.skipTrivia pos
  let broken := (← slice input pos start).any isBreak
  match ← peek input start with
  | none => return (⟨.finish, input.base + start, broken⟩, start)
  | some c =>
    let (kind, stop) ← kindAt input c start
    return (⟨kind, input.base + start, broken⟩, stop)

/-- The tokens behind `pos`, and `read` in front of them. -/
def Input.tokens (input : Input) (read : List Tok) (pos : Nat) : Run (List Tok) := do
  let (t, pos) ← nextToken input pos
  match t.kind with
  | .finish => return read ++ [t]
  | _ => input |>.tokens (read ++ [t]) pos
partial_fixpoint

end Lexer

/-- The tokens of `src`, the last one of which is its end. -/
def tokenize (src : List Char) (base : Nat) : Run (List Tok) :=
  Input.tokens ⟨src, base⟩ [] 0

end Cursor

end CardTable.Script
