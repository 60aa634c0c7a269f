import CardTable.Script.Escape
import CardTable.Text.White

set_option autoImplicit false

/-!
# Import lines

An import statement takes a line of its own: the word `import`, a clause, the word `from` and a
quoted specifier, with blanks between them and perhaps a semicolon behind. The clause is as short
as the rest of the line allows. Import lines are cut out of a source text, their line ends stay.

A default import binds the single name in front of the first comma of its clause; a clause that
begins with a brace binds nothing.

## Main definitions

* `CardTable.Source.importLine?` — the import line at the beginning of a text.
* `CardTable.Source.cutImports` — the import lines of a source text, and the text without them.
* `CardTable.Source.Import` and `CardTable.Source.Import.binding?` — an import and what it binds.

## Main results

* `CardTable.Source.length_of_importLine?` — an import line is taken off the text.
-/

namespace CardTable.Source

open CardTable.Text (trimList)
open CardTable.Script (EscapeError)

/-! ## One line -/

/-- Whether `c` is a space or a tab. -/
def isBlank (c : Char) : Bool :=
  c == ' ' || c == '\t'

/-- The text behind the word `word`, if that comes first. -/
def dropWord? (word cs : List Char) : Option (List Char) :=
  if word.isPrefixOf cs then some (cs.drop word.length) else none

/-- The text behind blanks, of which there must be one at least. -/
def dropBlanks? : List Char → Option (List Char)
  | [] => none
  | c :: rest => if isBlank c then some (rest.dropWhile isBlank) else none

/-- The rest of a specifier behind its opening quote: what stands before the closing quote, and what
is behind it. A backslash takes the next character along, which is no line feed. -/
def specifierBody? (quote : Char) : List Char → Option (List Char × List Char)
  | [] => none
  | c :: rest =>
    if c = quote then some ([], rest)
    else if c = '\\' then
      match rest with
      | [] => none
      | e :: rest =>
        if e = '\n' then none
        else (specifierBody? quote rest).map fun (body, behind) => (c :: e :: body, behind)
    else (specifierBody? quote rest).map fun (body, behind) => (c :: body, behind)

/-- A quoted specifier, which is not empty, and what is behind it. -/
def specifier? : List Char → Option (List Char × List Char)
  | [] => none
  | quote :: rest =>
    if quote = '\'' ∨ quote = '"' then
      match specifierBody? quote rest with
      | some (c :: body, behind) => some (c :: body, behind)
      | _ => none
    else none

/-- The text behind an optional character. -/
def dropOptional (c : Char) : List Char → List Char
  | [] => []
  | d :: rest => if d = c then rest else d :: rest

/-- The end of an import line: blanks, perhaps a semicolon and blanks, perhaps a carriage return;
the line feed stays. -/
def lineEnd? (cs : List Char) : Option (List Char) :=
  let behind := dropOptional '\r'
    ((dropOptional ';' (cs.dropWhile isBlank)).dropWhile isBlank)
  if behind.head?.all (· == '\n') then some behind else none

/-- The specifier at the end of an import line, from the blanks in front of `from`, and what is
behind the line. -/
def fromPart? (cs : List Char) : Option (List Char × List Char) := do
  let cs ← dropBlanks? cs
  let cs ← dropWord? "from".toList cs
  let cs ← dropBlanks? cs
  let (specifier, cs) ← specifier? cs
  let behind ← lineEnd? cs
  some (specifier, behind)

/-- An import line as it is written: its clause, and its specifier between the quotes. -/
structure ImportLine where
  /-- The clause. -/
  clause : List Char
  /-- The specifier between its quotes. -/
  specifier : List Char

/-- The shortest clause, of one character at least, behind which the line goes on with `from`; the
line it makes, and what is behind the line. -/
def clause? : List Char → Option (ImportLine × List Char)
  | [] => none
  | c :: rest =>
    if c = '\n' then none
    else
      match fromPart? rest with
      | some (specifier, behind) => some (⟨[c], specifier⟩, behind)
      | none => (clause? rest).map fun (line, behind) =>
          ({ line with clause := c :: line.clause }, behind)

/-- The clause behind `count` or fewer of the blanks that `cs` begins with, but one at least; as
many blanks as possible are left out of the clause. -/
def clauseBehind? (cs : List Char) : Nat → Option (ImportLine × List Char)
  | 0 => none
  | count + 1 => (clause? (cs.drop (count + 1))).or (clauseBehind? cs count)

/-- The import line at the beginning of a text, and what is behind it. -/
def importLine? (cs : List Char) : Option (ImportLine × List Char) := do
  let cs ← dropWord? "import".toList (cs.dropWhile isBlank)
  clauseBehind? cs (cs.takeWhile isBlank).length

/-! ### What is left of the text -/

/-- What is behind a word is no longer than the text. -/
theorem length_of_dropWord? {word cs behind : List Char} (h : dropWord? word cs = some behind) :
    behind.length ≤ cs.length := by
  simp only [dropWord?, Option.ite_none_right_eq_some, Option.some.injEq] at h
  obtain ⟨_, rfl⟩ := h
  simp

/-- What is behind blanks is no longer than the text. -/
theorem length_of_dropBlanks? {cs behind : List Char} (h : dropBlanks? cs = some behind) :
    behind.length ≤ cs.length := by
  cases cs with
  | nil => simp [dropBlanks?] at h
  | cons c rest =>
    simp only [dropBlanks?, Option.ite_none_right_eq_some, Option.some.injEq] at h
    obtain ⟨_, rfl⟩ := h
    exact Nat.le_succ_of_le (List.dropWhile_sublist _).length_le

/-- What is behind a closing quote is no longer than the text. -/
theorem length_of_specifierBody? {quote : Char} {cs body behind : List Char}
    (h : specifierBody? quote cs = some (body, behind)) : behind.length ≤ cs.length := by
  fun_induction specifierBody? quote cs generalizing body with
  | case1 => simp at h
  | case2 =>
    simp only [Option.some.injEq, Prod.mk.injEq] at h
    obtain ⟨_, rfl⟩ := h
    simp
  | case3 => simp at h
  | case4 => simp at h
  | case5 _ _ _ _ ih =>
    simp only [Option.map_eq_some_iff, Prod.mk.injEq, Prod.exists] at h
    obtain ⟨_, _, hrest, _, rfl⟩ := h
    have := ih hrest
    simp only [List.length_cons]
    omega
  | case6 _ _ _ _ ih =>
    simp only [Option.map_eq_some_iff, Prod.mk.injEq, Prod.exists] at h
    obtain ⟨_, _, hrest, _, rfl⟩ := h
    exact Nat.le_succ_of_le (ih hrest)

/-- What is behind a specifier is no longer than the text. -/
theorem length_of_specifier? {cs body behind : List Char}
    (h : specifier? cs = some (body, behind)) : behind.length ≤ cs.length := by
  cases cs with
  | nil => simp [specifier?] at h
  | cons quote rest =>
    simp only [specifier?] at h
    split at h
    · split at h
      · next hbody =>
        simp only [Option.some.injEq, Prod.mk.injEq] at h
        obtain ⟨_, rfl⟩ := h
        exact Nat.le_succ_of_le (length_of_specifierBody? hbody)
      · simp at h
    · simp at h

/-- What is behind an optional character is no longer than the text. -/
theorem length_dropOptional_le (c : Char) (cs : List Char) :
    (dropOptional c cs).length ≤ cs.length := by
  cases cs with
  | nil => simp [dropOptional]
  | cons d rest =>
    simp only [dropOptional]
    split <;> simp

/-- What is behind the end of a line is no longer than the text. -/
theorem length_of_lineEnd? {cs behind : List Char} (h : lineEnd? cs = some behind) :
    behind.length ≤ cs.length := by
  simp only [lineEnd?, Option.ite_none_right_eq_some, Option.some.injEq] at h
  obtain ⟨_, rfl⟩ := h
  have h1 : (cs.dropWhile isBlank).length ≤ cs.length := (List.dropWhile_sublist _).length_le
  have h2 := length_dropOptional_le ';' (cs.dropWhile isBlank)
  have h3 : ((dropOptional ';' (cs.dropWhile isBlank)).dropWhile isBlank).length
      ≤ (dropOptional ';' (cs.dropWhile isBlank)).length := (List.dropWhile_sublist _).length_le
  have h4 := length_dropOptional_le '\r'
    ((dropOptional ';' (cs.dropWhile isBlank)).dropWhile isBlank)
  omega

/-- What is behind the `from` part is no longer than the text. -/
theorem length_of_fromPart? {cs specifier behind : List Char}
    (h : fromPart? cs = some (specifier, behind)) : behind.length ≤ cs.length := by
  simp only [fromPart?, Option.bind_eq_bind, Option.bind_eq_some_iff, Prod.exists,
    Option.some.injEq, Prod.mk.injEq] at h
  obtain ⟨_, h1, _, h2, _, h3, _, _, h4, _, h5, _, rfl⟩ := h
  have := length_of_dropBlanks? h1
  have := length_of_dropWord? h2
  have := length_of_dropBlanks? h3
  have := length_of_specifier? h4
  have := length_of_lineEnd? h5
  omega

/-- A clause is taken off the text. -/
theorem length_of_clause? {cs behind : List Char} {line : ImportLine}
    (h : clause? cs = some (line, behind)) : behind.length < cs.length := by
  induction cs generalizing line with
  | nil => simp [clause?] at h
  | cons c rest ih =>
    simp only [clause?] at h
    split at h
    · simp at h
    · split at h
      · next hfrom =>
        simp only [Option.some.injEq, Prod.mk.injEq] at h
        obtain ⟨_, rfl⟩ := h
        exact Nat.lt_succ_of_le (length_of_fromPart? hfrom)
      · simp only [Option.map_eq_some_iff, Prod.mk.injEq, Prod.exists] at h
        obtain ⟨_, _, hrest, _, rfl⟩ := h
        exact Nat.lt_succ_of_lt (ih hrest)

/-- An import line is taken off the text. -/
theorem length_of_importLine? {cs behind : List Char} {line : ImportLine}
    (h : importLine? cs = some (line, behind)) : behind.length < cs.length := by
  simp only [importLine?, Option.bind_eq_bind, Option.bind_eq_some_iff] at h
  obtain ⟨tail, hword, h⟩ := h
  have hclause : ∀ count, clauseBehind? tail count = some (line, behind) →
      behind.length < tail.length := by
    intro count hcount
    induction count with
    | zero => simp [clauseBehind?] at hcount
    | succ count ih =>
      simp only [clauseBehind?, Option.or_eq_some_iff] at hcount
      rcases hcount with hclause | ⟨_, hcount⟩
      · have := length_of_clause? hclause
        simp only [List.length_drop] at this
        omega
      · exact ih hcount
  have := hclause _ h
  have := length_of_dropWord? hword
  have : (cs.dropWhile isBlank).length ≤ cs.length := (List.dropWhile_sublist _).length_le
  omega

/-! ## Source texts -/

/-- The import line at the front of a text that begins a line. -/
def lineAt? (atStart : Bool) (cs : List Char) : Option (ImportLine × List Char) :=
  if atStart then importLine? cs else none

/-- An import line is taken off the text. -/
theorem length_of_lineAt? {atStart : Bool} {cs behind : List Char} {line : ImportLine}
    (h : lineAt? atStart cs = some (line, behind)) : behind.length < cs.length := by
  simp only [lineAt?, Option.ite_none_right_eq_some] at h
  exact length_of_importLine? h.2

/-- The import lines of a source text and the text without them, from the beginning of a line if
`atStart` and from inside one otherwise. -/
def cutImports (atStart : Bool) (cs : List Char) : List ImportLine × List Char :=
  match cs with
  | [] => ([], [])
  | c :: rest =>
    match _h : lineAt? atStart (c :: rest) with
    | some (line, behind) =>
      let (lines, text) := cutImports false behind
      (line :: lines, text)
    | none =>
      let (lines, text) := cutImports (c == '\n') rest
      (lines, c :: text)
termination_by cs.length
decreasing_by
  · exact length_of_lineAt? _h
  · exact Nat.lt_succ_self _

/-- An import: its clause without white space around it, and the specifier that it spells. -/
structure Import where
  /-- The clause. -/
  clause : String
  /-- The specifier. -/
  specifier : String
deriving DecidableEq

/-- A specifier that spells no text. -/
structure SpecifierError where
  /-- The specifier as it is written. -/
  raw : String
  /-- Why it spells no text. -/
  reason : EscapeError
deriving DecidableEq

/-- The import that a line stands for. -/
def Import.ofLine (line : ImportLine) : Except SpecifierError Import :=
  match Script.unescape line.specifier with
  | .ok specifier => .ok ⟨String.ofList (trimList line.clause), String.ofList specifier⟩
  | .error reason => .error ⟨String.ofList line.specifier, reason⟩

/-- Whether `c` may begin a plain name. -/
def startsName (c : Char) : Bool :=
  c.isAlpha || c == '_' || c == '$'

/-- Whether `c` may stand inside a plain name. -/
def continuesName (c : Char) : Bool :=
  startsName c || c.isDigit

/-- Whether `cs` is a plain name, of ASCII characters only. -/
def isName : List Char → Bool
  | [] => false
  | c :: rest => startsName c && rest.all continuesName

/-- The name that an import binds, if it is a default import. -/
def Import.binding? (i : Import) : Option String :=
  let clause := i.clause.toList
  if clause.head? = some '\x7b' then none
  else
    let symbol := trimList (clause.takeWhile (· != ','))
    if isName symbol then some (String.ofList symbol) else none

end CardTable.Source
