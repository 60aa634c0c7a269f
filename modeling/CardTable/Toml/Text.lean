import CardTable.Text.Hex

set_option autoImplicit false

/-!
# TOML texts

A TOML text stands between double quotes, where a backslash begins an escape, or between single
quotes, where nothing is escaped. With three quotes on each side it may take several lines; a line
end is a line feed then, whatever it was in the file.

All readers of this folder take a text and give what they read with the text behind it.

## Main definitions

* `CardTable.Toml.newline?` — the text behind a line end.
* `CardTable.Toml.basic?`, `CardTable.Toml.literal?` — texts on one line.
* `CardTable.Toml.longBasic?`, `CardTable.Toml.longLiteral?` — texts on several lines.
* `CardTable.Toml.text?` — a text of any of these forms.
-/

namespace CardTable.Toml

/-- Whether `c` is a space or a tab. -/
def isBlank (c : Char) : Bool :=
  c == ' ' || c == '\t'

/-- Whether `c` may stand in a text or a comment as it is. -/
def isPlainChar (c : Char) : Bool :=
  c == '\t' || (decide (0x20 ≤ c.toNat) && c.toNat != 0x7f)

/-- The text behind a line end, if it begins with one. -/
def newline? : List Char → Option (List Char)
  | '\n' :: rest => some rest
  | '\r' :: '\n' :: rest => some rest
  | _ => none

/-! ## Escapes -/

/-- The character with the number that hexadecimal digits write. -/
def scalar? (digits : List Char) : Option Char :=
  let n := Text.hexNumber digits
  if digits.all Text.isHexDigit ∧ n.isValidChar then some (Char.ofNat n) else none

/-- The character that an escape stands for, behind its backslash, and how many characters the
escape takes there. -/
def escape? : List Char → Option (Char × Nat)
  | 'b' :: _ => some ('\x08', 1)
  | 't' :: _ => some ('\t', 1)
  | 'n' :: _ => some ('\n', 1)
  | 'f' :: _ => some ('\x0c', 1)
  | 'r' :: _ => some ('\r', 1)
  | '"' :: _ => some ('"', 1)
  | '\\' :: _ => some ('\\', 1)
  | 'u' :: rest => if 4 ≤ rest.length then (scalar? (rest.take 4)).map (·, 5) else none
  | 'U' :: rest => if 8 ≤ rest.length then (scalar? (rest.take 8)).map (·, 9) else none
  | _ => none

/-! ## One line -/

/-- The inside of a text between double quotes, behind the first of them. -/
def basic? (cs : List Char) : Option (List Char × List Char) :=
  match cs with
  | [] => none
  | '"' :: rest => some ([], rest)
  | '\\' :: rest =>
    match escape? rest with
    | none => none
    | some (c, taken) => (basic? (rest.drop taken)).map fun (body, behind) => (c :: body, behind)
  | c :: rest =>
    if isPlainChar c then (basic? rest).map fun (body, behind) => (c :: body, behind) else none
termination_by cs.length
decreasing_by
  · simp only [List.length_cons, List.length_drop]
    omega
  · simp

/-- The inside of a text between single quotes, behind the first of them. -/
def literal? : List Char → Option (List Char × List Char)
  | [] => none
  | '\'' :: rest => some ([], rest)
  | c :: rest =>
    if isPlainChar c then (literal? rest).map fun (body, behind) => (c :: body, behind) else none

/-! ## Several lines -/

/-- The text behind the first line end and all line ends and blanks that follow it, with blanks in
front of it. -/
def behindLineEnd? (cs : List Char) : Option (List Char) :=
  (newline? (cs.dropWhile isBlank)).map fun rest =>
    dropBlankLines rest
where
  /-- The text behind line ends and blanks. -/
  dropBlankLines : List Char → List Char
    | '\r' :: '\n' :: rest => dropBlankLines rest
    | c :: rest => if isBlank c || c == '\n' then dropBlankLines rest else c :: rest
    | [] => []

/-- The number of quotes at the beginning of a text. -/
def quoteRun (quote : Char) (cs : List Char) : Nat :=
  (cs.takeWhile (· == quote)).length

/-- A text without the line end at its beginning. -/
def dropNewline (cs : List Char) : List Char :=
  (newline? cs).getD cs

/-- Blank lines are dropped from a text. -/
theorem length_dropBlankLines_le (cs : List Char) :
    (behindLineEnd?.dropBlankLines cs).length ≤ cs.length := by
  fun_induction behindLineEnd?.dropBlankLines cs with
  | case1 rest ih =>
    simp only [List.length_cons]
    omega
  | case2 c rest _ _ ih =>
    simp only [List.length_cons]
    omega
  | case3 => exact Nat.le_refl _
  | case4 => exact Nat.le_refl _

/-- A line end is taken off the text. -/
theorem length_of_newline? {cs rest : List Char} (h : newline? cs = some rest) :
    rest.length < cs.length := by
  unfold newline? at h
  split at h
  · obtain rfl := Option.some.inj h
    simp
  · obtain rfl := Option.some.inj h
    simp only [List.length_cons]
    omega
  · simp at h

/-- A line end with the blanks around it is taken off the text. -/
theorem length_of_behindLineEnd? {cs rest : List Char} (h : behindLineEnd? cs = some rest) :
    rest.length < cs.length := by
  unfold behindLineEnd? at h
  obtain ⟨line, hline, rfl⟩ := Option.map_eq_some_iff.1 h
  have hle := length_dropBlankLines_le line
  have hlt := length_of_newline? hline
  have hdrop := (List.dropWhile_suffix isBlank (l := cs)).length_le
  omega

/-- The inside of a text between three double quotes, behind the first of them. Up to two quotes may
stand inside, also in front of the closing ones. -/
def longBasic? (cs : List Char) : Option (List Char × List Char) :=
  match cs with
  | [] => none
  | '"' :: rest =>
    let more := quoteRun '"' rest
    if more < 2 then (longBasic? rest).map fun (body, behind) => ('"' :: body, behind)
    else if more ≤ 4 then some (List.replicate (more - 2) '"', rest.drop more)
    else none
  | '\\' :: rest =>
    match _h : behindLineEnd? rest with
    | some line => longBasic? line
    | none =>
      match escape? rest with
      | none => none
      | some (c, taken) =>
        (longBasic? (rest.drop taken)).map fun (body, behind) => (c :: body, behind)
  | c :: rest =>
    match _h : newline? (c :: rest) with
    | some line => (longBasic? line).map fun (body, behind) => ('\n' :: body, behind)
    | none =>
      if isPlainChar c then (longBasic? rest).map fun (body, behind) => (c :: body, behind)
      else none
termination_by cs.length
decreasing_by
  · simp
  · have := length_of_behindLineEnd? _h
    simp only [List.length_cons]
    omega
  · simp only [List.length_cons, List.length_drop]
    omega
  · exact length_of_newline? _h
  · simp

/-- The inside of a text between three single quotes, behind the first of them. -/
def longLiteral? (cs : List Char) : Option (List Char × List Char) :=
  match cs with
  | [] => none
  | '\'' :: rest =>
    let more := quoteRun '\'' rest
    if more < 2 then (longLiteral? rest).map fun (body, behind) => ('\'' :: body, behind)
    else if more ≤ 4 then some (List.replicate (more - 2) '\'', rest.drop more)
    else none
  | c :: rest =>
    match _h : newline? (c :: rest) with
    | some line => (longLiteral? line).map fun (body, behind) => ('\n' :: body, behind)
    | none =>
      if isPlainChar c then (longLiteral? rest).map fun (body, behind) => (c :: body, behind)
      else none
termination_by cs.length
decreasing_by
  · simp
  · exact length_of_newline? _h
  · simp

/-! ## All forms -/

/-- A text of any form. -/
def text? : List Char → Option (List Char × List Char)
  | '"' :: '"' :: '"' :: rest => longBasic? (dropNewline rest)
  | '\'' :: '\'' :: '\'' :: rest => longLiteral? (dropNewline rest)
  | '"' :: rest => basic? rest
  | '\'' :: rest => literal? rest
  | _ => none

end CardTable.Toml
