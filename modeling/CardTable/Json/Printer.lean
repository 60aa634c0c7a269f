import CardTable.Number.Style
import CardTable.Text.Hex
import CardTable.Value.Basic

set_option autoImplicit false

/-!
# Compact JSON texts

The compact JSON text of a value has no white space, writes the fields of a mapping in their own
order, and escapes in strings what JSON requires: the quote, the backslash and the characters below
U+0020.

## Main definitions

* `CardTable.Json.quote` — a string literal.
* `CardTable.Json.render`, `CardTable.Json.text` — the compact text of a value.
-/

namespace CardTable.Json

/-- The last hexadecimal digit of `n`, in lower case. -/
def hexDigit (n : Nat) : Char :=
  Nat.digitChar (n % 16)

/-- A hexadecimal digit has the value that it was printed for. -/
theorem hexValue?_hexDigit (n : Nat) : Text.hexValue? (hexDigit n) = some (n % 16) := by
  have hall : ∀ d < 16, Text.hexValue? (Nat.digitChar d) = some d := by decide
  exact hall _ (Nat.mod_lt _ (by decide))

/-- The character `c` inside a string literal. -/
def escapeChar (c : Char) : List Char :=
  if c = '"' then ['\\', '"']
  else if c = '\\' then ['\\', '\\']
  else if 0x20 ≤ c.toNat then [c]
  else if c = '\x08' then ['\\', 'b']
  else if c = '\t' then ['\\', 't']
  else if c = '\n' then ['\\', 'n']
  else if c = '\x0c' then ['\\', 'f']
  else if c = '\r' then ['\\', 'r']
  else ['\\', 'u', '0', '0', hexDigit (c.toNat / 16), hexDigit c.toNat]

/-- The string literal of `s`. -/
def quote (s : String) : List Char :=
  ['"'] ++ s.toList.flatMap escapeChar ++ ['"']

/-- The text of a whole number: decimal digits behind a minus sign if it is negative. -/
def intText (n : Int) : List Char :=
  if n < 0 then '-' :: Nat.toDigits 10 n.natAbs else Nat.toDigits 10 n.natAbs

/-- The text of a number. -/
def numberText : Number → List Char
  | .whole n _ => intText n
  | .double x => x.render .json

mutual

/-- The compact text of `v`. -/
def render (v : Value) : List Char :=
  match v with
  | .null => ['n', 'u', 'l', 'l']
  | .bool true => ['t', 'r', 'u', 'e']
  | .bool false => ['f', 'a', 'l', 's', 'e']
  | .num n => numberText n
  | .str s => quote s
  | .list items => '[' :: renderItems items
  | .mapping fields => '{' :: renderFields fields

/-- The items of a list and the bracket behind them. -/
def renderItems (items : List Value) : List Char :=
  match items with
  | [] => [']']
  | item :: rest => render item ++ renderMoreItems rest

/-- The items of a list behind its first one, and the bracket behind them. -/
def renderMoreItems (items : List Value) : List Char :=
  match items with
  | [] => [']']
  | item :: rest => ',' :: (render item ++ renderMoreItems rest)

/-- The fields of a mapping and the brace behind them. -/
def renderFields (fields : List (String × Value)) : List Char :=
  match fields with
  | [] => ['\x7d']
  | (name, value) :: rest => quote name ++ ':' :: (render value ++ renderMoreFields rest)

/-- The fields of a mapping behind its first one, and the brace behind them. -/
def renderMoreFields (fields : List (String × Value)) : List Char :=
  match fields with
  | [] => ['\x7d']
  | (name, value) :: rest =>
    ',' :: (quote name ++ ':' :: (render value ++ renderMoreFields rest))

end

/-- The compact text of `v` as a string. -/
def text (v : Value) : String :=
  String.ofList (render v)

end CardTable.Json
