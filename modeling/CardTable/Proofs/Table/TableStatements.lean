import CardTable.Proofs.Table.StatementTokens

set_option autoImplicit false

/-!
# The statements for the card table

The two statements for the card table, read back. What is read is what was meant: the name of the
table and those of the columns, as they are and in their order, the declared types and the key in
the first statement, and as many places for values as there are columns in the second.

## Main definitions

* `CardTable.Statement.readCreate?`, `CardTable.Statement.readInsert?` — what the two statements
  say.

## Main results

* `CardTable.Statement.run_create`, `CardTable.Statement.run_insert` — their tokens.
* `CardTable.Statement.read_statements` — what is read of the statements for a schema.
-/

namespace CardTable.Statement

/-! ## Reading statements -/

/-- What a statement says about a column. -/
structure DeclaredColumn where
  /-- The name. -/
  name : String
  /-- The declared type. -/
  declared : String
  /-- Whether it is the key. -/
  isKey : Bool
deriving DecidableEq

/-- What a statement that makes a table says. -/
structure TableStatement where
  /-- The name of the table. -/
  table : String
  /-- The columns. -/
  columns : List DeclaredColumn
deriving DecidableEq

/-- What a statement that adds a row says. -/
structure RowStatement where
  /-- The name of the table. -/
  table : String
  /-- The names of the columns. -/
  names : List String
  /-- The number of values. -/
  values : Nat
deriving DecidableEq

/-- The items of a list with commas between them. -/
def items (tokens : List Token) : List (List Token) :=
  if tokens = [] then [] else tokens.splitOn (.sign ',')

/-- The tokens that make a column the key. -/
def keyTokens : List Token :=
  [.word "NOT", .word "NULL", .word "PRIMARY", .word "KEY"]

/-- Reads the definition of a column. -/
def column? : List Token → Option DeclaredColumn
  | .name name :: .word declared :: marks =>
    if marks = [] then some ⟨name, declared, false⟩
    else if marks = keyTokens then some ⟨name, declared, true⟩
    else none
  | _ => none

/-- Reads the name of a column. -/
def columnName? : List Token → Option String
  | [.name name] => some name
  | _ => none

/-- Reads the tokens of a statement that makes a table. -/
def createOf? : List Token → Option TableStatement
  | .word "CREATE" :: .word "TABLE" :: .name table :: .sign '(' :: rest =>
    match rest.splitOn (.sign ')') with
    | [columns, []] => ((items columns).mapM column?).map fun columns => ⟨table, columns⟩
    | _ => none
  | _ => none

/-- Reads the tokens of a statement that adds a row. -/
def insertOf? : List Token → Option RowStatement
  | .word "INSERT" :: .word "INTO" :: .name table :: .sign '(' :: rest =>
    match rest.splitOn (.sign ')') with
    | [names, .word "VALUES" :: .sign '(' :: values, []] =>
      if ∀ value ∈ items values, value = [.sign '?'] then
        ((items names).mapM columnName?).map fun names => ⟨table, names, (items values).length⟩
      else none
    | _ => none
  | _ => none

/-- What the text of a statement that makes a table says. -/
def readCreate? (text : List Char) : Option TableStatement :=
  (run .between text).bind createOf?

/-- What the text of a statement that adds a row says. -/
def readInsert? (text : List Char) : Option RowStatement :=
  (run .between text).bind insertOf?

/-! ## The tokens of the statements -/

/-- The tokens of the definition of a column. -/
def definitionTokens (c : ColumnDefinition) : List Token :=
  .name c.name :: .word c.kind.declared :: if c.isKey then keyTokens else []

/-- The token of the name of a column. -/
def nameTokens (c : ColumnDefinition) : List Token :=
  [.name c.name]

/-- The token of the value for a column. -/
def valueTokens (_ : ColumnDefinition) : List Token :=
  [.sign '?']

/-- A declared type is one word. -/
lemma spells_declared (kind : ColumnKind) :
    Spells kind.declared.toList [.word kind.declared] := by
  cases kind <;> exact spells_word (by decide)

/-- The mark of a key is read as its words. -/
lemma spells_keyMark : Spells keyMark keyTokens := by
  have hnot : Spells "NOT".toList [.word "NOT"] := spells_word (by decide)
  have hnull : Spells "NULL".toList [.word "NULL"] := spells_word (by decide)
  have hprimary : Spells "PRIMARY".toList [.word "PRIMARY"] := spells_word (by decide)
  have hkey : Spells "KEY".toList [.word "KEY"] := spells_word (by decide)
  exact (hnot.append_blank (hnull.append_blank (hprimary.append_blank hkey))).blank

/-- The definition of a column. -/
lemma spells_definition {c : ColumnDefinition} (h : '\x00' ∉ c.name.toList) :
    Spells (definition c) (definitionTokens c) := by
  refine (spells_quoteName h).append_blank ?_
  split
  · exact (spells_declared c.kind).append spells_keyMark fun _ _ =>
      apart_cons (by decide) (by decide) _
  · rw [List.append_nil]
    exact spells_declared c.kind

/-- A definition with a NUL character in its name cannot be read. -/
lemma run_definition_eq_none {c : ColumnDefinition} (h : '\x00' ∈ c.name.toList)
    (rest : List Char) : run .between (definition c ++ rest) = none := by
  rw [definition, List.append_assoc]
  exact run_quoteName_eq_none h _

/-- The words and the name in front of the columns. -/
lemma run_opening (words : List Char) (first second : String)
    (hfirst : isWord first.toList = true)
    (hsecond : isWord second.toList = true)
    (hwords : words = first.toList ++ ' ' :: (second.toList ++ [' '])) (rest : List Char) :
    run .between (words ++ quoteName tableName ++ [' ', '('] ++ rest) =
      (run .between rest).map ([.word first, .word second, .name tableName, .sign '('] ++ ·) := by
  have hname : Spells (quoteName tableName) [.name tableName] := spells_quoteName (by decide)
  have hblank : Apart (' ' :: '(' :: rest) := apart_cons (by decide) (by decide) _
  have hopening := (spells_word hfirst).append_blank ((spells_word hsecond).append_blank hname)
  have hrun := hopening _ hblank
  rw [run_blank, run_sign (by decide), Option.map_map] at hrun
  simpa [hwords, Function.comp_def] using hrun

section Columns

variable (columns : List ColumnDefinition)

/-- The statement that makes a table, in the parts in which it is read. -/
lemma create_eq : create columns = "CREATE TABLE ".toList ++ quoteName tableName ++ [' ', '('] ++
    (joinComma (columns.map definition) ++ [')']) := by
  unfold create opening
  exact List.append_assoc ..

/-- The tokens of the statement that makes the table. -/
theorem run_create : run .between (create columns) =
    if ∀ c ∈ columns, '\x00' ∉ c.name.toList then
      some ([.word "CREATE", .word "TABLE", .name tableName, .sign '('] ++
        ([.sign ','].intercalate (columns.map definitionTokens) ++ [.sign ')']))
    else none := by
  have hopening := run_opening "CREATE TABLE ".toList "CREATE" "TABLE" (by decide) (by decide) rfl
  rw [create_eq, hopening]
  split
  · next hplain =>
    have hdefinitions : Spells (joinComma (columns.map definition))
        ([.sign ','].intercalate (columns.map definitionTokens)) :=
      spells_joinComma fun c hc => spells_definition (hplain c hc)
    have hclose : Apart [')'] := apart_cons (by decide) (by decide) _
    rw [hdefinitions _ hclose, run_sign (by decide)]
    rfl
  · next hplain =>
    rw [run_joinComma_eq_none (fun _ => spells_definition)
      (fun _ h => run_definition_eq_none (Decidable.not_not.1 h)) hplain]
    rfl

/-- The text between the names of the columns and the values. -/
lemma run_values (rest : List Char) :
    Apart (") VALUES (".toList ++ rest) ∧ run .between (") VALUES (".toList ++ rest) =
      (run .between rest).map ([.sign ')', .word "VALUES", .sign '('] ++ ·) := by
  have hvalues : Spells "VALUES".toList [.word "VALUES"] := spells_word (by decide)
  have htext :
    ") VALUES (".toList ++ rest = ')' :: ' ' :: ("VALUES".toList ++ ' ' :: '(' :: rest) :=
    rfl
  have hblank : Apart (' ' :: '(' :: rest) := apart_cons (by decide) (by decide) _
  rw [htext]
  refine ⟨apart_cons (by decide) (by decide) _, ?_⟩
  rw [run_sign (by decide), run_blank, hvalues _ hblank, run_blank, run_sign (by decide),
    Option.map_map, Option.map_map]
  rfl

/-- The statement that adds a row, in the parts in which it is read. -/
lemma insert_eq : Statement.insert columns =
    "INSERT INTO ".toList ++ quoteName tableName ++ [' ', '('] ++
      (joinComma (columns.map fun c => quoteName c.name) ++
        (") VALUES (".toList ++ (joinComma (columns.map fun _ => ['?']) ++ [')']))) := by
  unfold Statement.insert
  exact (List.append_assoc ..).trans ((List.append_assoc ..).trans (List.append_assoc ..))

/-- The tokens of the statement that adds a row. -/
theorem run_insert : run .between (Statement.insert columns) =
    if ∀ c ∈ columns, '\x00' ∉ c.name.toList then
      some ([.word "INSERT", .word "INTO", .name tableName, .sign '('] ++
        ([.sign ','].intercalate (columns.map nameTokens) ++
          ([.sign ')', .word "VALUES", .sign '('] ++
            ([.sign ','].intercalate (columns.map valueTokens) ++ [.sign ')']))))
    else none := by
  have hopening := run_opening "INSERT INTO ".toList "INSERT" "INTO" (by decide) (by decide) rfl
  rw [insert_eq, hopening]
  split
  · next hplain =>
    have hnames : Spells (joinComma (columns.map fun c => quoteName c.name))
        ([.sign ','].intercalate (columns.map nameTokens)) :=
      spells_joinComma fun c hc => spells_quoteName (hplain c hc)
    have hvalues : Spells (joinComma (columns.map fun _ => ['?']))
        ([.sign ','].intercalate (columns.map valueTokens)) :=
      spells_joinComma fun _ _ => spells_nil.sign (by decide)
    have hclose : Apart [')'] := apart_cons (by decide) (by decide) _
    obtain ⟨hapart, hbetween⟩ := run_values (joinComma (columns.map fun _ => ['?']) ++ [')'])
    rw [hnames _ hapart, hbetween, hvalues _ hclose, run_sign (by decide)]
    rfl
  · next hplain =>
    rw [run_joinComma_eq_none (fun _ => spells_quoteName)
      (fun _ h => run_quoteName_eq_none (Decidable.not_not.1 h)) hplain]
    rfl

end Columns

/-! ## What the tokens say -/

section Items

variable {α β : Type} {tokensOf : α → List Token} {item? : List Token → Option β} {value : α → β}
  {l : List α}

/-- What is in none of several lists is not between the commas either. -/
lemma not_mem_intercalate {token : Token} (hcomma : token ≠ .sign ',')
    (h : ∀ a, token ∉ tokensOf a) : token ∉ [.sign ','].intercalate (l.map tokensOf) := by
  induction l with
  | nil => exact List.not_mem_nil
  | cons a l ih =>
    cases l with
    | nil => simpa using h a
    | cons b l =>
      rw [List.map_cons] at ih
      rw [List.map_cons, List.map_cons, List.intercalate_cons_cons]
      simp [h a, hcomma, ih]

/-- The items of a list are found again. -/
lemma items_intercalate (hne : ∀ a, tokensOf a ≠ []) (hcomma : ∀ a, .sign ',' ∉ tokensOf a) :
    items ([.sign ','].intercalate (l.map tokensOf)) = l.map tokensOf := by
  cases l with
  | nil => rfl
  | cons a l =>
    have hlist : [.sign ','].intercalate ((a :: l).map tokensOf) ≠ [] := by
      cases l with
      | nil => simpa using hne a
      | cons b l =>
        rw [List.map_cons, List.map_cons, List.intercalate_cons_cons]
        simp
    rw [items, if_neg hlist, List.splitOn_intercalate _ (by simpa using ⟨hcomma a, fun b _ => hcomma b⟩)
      (by simp)]

/-- Items that can be read are read one by one. -/
lemma mapM_items (h : ∀ a, item? (tokensOf a) = some (value a)) :
    (l.map tokensOf).mapM item? = some (l.map value) := by
  induction l with
  | nil => rfl
  | cons a l ih =>
    rw [List.map_cons, List.mapM_cons, h, ih]
    rfl

end Items

/-- The definitions of the columns stand between the parentheses. -/
lemma createOf?_append {columns : List Token} (h : .sign ')' ∉ columns) (table : String) :
    createOf? ([.word "CREATE", .word "TABLE", .name table, .sign '('] ++ (columns ++ [.sign ')'])) =
      ((items columns).mapM column?).map fun columns => ⟨table, columns⟩ := by
  have hsplit : List.splitOn (.sign ')') (columns ++ [.sign ')']) = [columns, []] :=
    List.splitOn_append_cons_self_of_not_mem h []
  simp only [List.cons_append, List.nil_append, createOf?, hsplit]

/-- The names of the columns stand between the first two parentheses, and the values between the
others. -/
lemma insertOf?_append {names values : List Token} (hnames : .sign ')' ∉ names)
    (hvalues : .sign ')' ∉ values) (table : String) :
    insertOf? ([.word "INSERT", .word "INTO", .name table, .sign '('] ++
        (names ++ ([.sign ')', .word "VALUES", .sign '('] ++ (values ++ [.sign ')'])))) =
      if ∀ value ∈ items values, value = [.sign '?'] then
        ((items names).mapM columnName?).map fun names => ⟨table, names, (items values).length⟩
      else none := by
  have hbehind : .sign ')' ∉ .word "VALUES" :: .sign '(' :: values := by simpa using hvalues
  have hsplit : List.splitOn (.sign ')')
      (names ++ .sign ')' :: .word "VALUES" :: .sign '(' :: (values ++ [.sign ')'])) =
        [names, .word "VALUES" :: .sign '(' :: values, []] :=
    (List.splitOn_append_cons_self_of_not_mem hnames _).trans
      (congrArg (names :: ·) (List.splitOn_append_cons_self_of_not_mem hbehind []))
  simp only [List.cons_append, List.nil_append, insertOf?, hsplit]

section Columns

variable (columns : List ColumnDefinition)

/-- The tokens of a definition are read as the column they define. -/
lemma column?_definitionTokens (c : ColumnDefinition) :
    column? (definitionTokens c) = some ⟨c.name, c.kind.declared, c.isKey⟩ := by
  cases hkey : c.isKey <;> simp [definitionTokens, column?, hkey, keyTokens]

/-- There are no signs in a definition. -/
lemma sign_not_mem_definitionTokens (sign : Char) (c : ColumnDefinition) :
    .sign sign ∉ definitionTokens c := by
  cases hkey : c.isKey <;> simp [definitionTokens, hkey, keyTokens]

/-- What the statement that makes the table says. -/
lemma readCreate?_create : readCreate? (create columns) =
    if ∀ c ∈ columns, '\x00' ∉ c.name.toList then
      some ⟨tableName, columns.map fun c => ⟨c.name, c.kind.declared, c.isKey⟩⟩
    else none := by
  rw [readCreate?, run_create]
  split
  · have hclose : .sign ')' ∉ [.sign ','].intercalate (columns.map definitionTokens) :=
      not_mem_intercalate (by decide) (sign_not_mem_definitionTokens ')')
    have hne : ∀ c, definitionTokens c ≠ [] := fun c => List.cons_ne_nil _ _
    rw [Option.bind_some, createOf?_append hclose,
      items_intercalate hne (sign_not_mem_definitionTokens ','), mapM_items column?_definitionTokens]
    rfl
  · rfl

/-- A name that goes on like a statement stays a name. -/
example : readCreate? (create [⟨"id\" TEXT); DROP TABLE \"cards\"", .text, true⟩]) =
    some ⟨"cards", [⟨"id\" TEXT); DROP TABLE \"cards\"", "TEXT", true⟩]⟩ := by
  decide +kernel

/-- What the statement that adds a row says. -/
lemma readInsert?_insert : readInsert? (Statement.insert columns) =
    if ∀ c ∈ columns, '\x00' ∉ c.name.toList then
      some ⟨tableName, columns.map ColumnDefinition.name, columns.length⟩
    else none := by
  rw [readInsert?, run_insert]
  split
  · have hnames : .sign ')' ∉ [.sign ','].intercalate (columns.map nameTokens) :=
      not_mem_intercalate (by decide) fun c => by simp [nameTokens]
    have hvalues : .sign ')' ∉ [.sign ','].intercalate (columns.map valueTokens) :=
      not_mem_intercalate (by decide) fun c => by simp [valueTokens]
    have hnameItems : items ([.sign ','].intercalate (columns.map nameTokens)) =
        columns.map nameTokens :=
      items_intercalate (fun c => List.cons_ne_nil _ _) fun c => by simp [nameTokens]
    have hvalueItems : items ([.sign ','].intercalate (columns.map valueTokens)) =
        columns.map valueTokens :=
      items_intercalate (fun c => List.cons_ne_nil _ _) fun c => by simp [valueTokens]
    have hname : ∀ c, columnName? (nameTokens c) = some c.name := fun c => rfl
    have hvalue : ∀ value ∈ columns.map valueTokens, value = [.sign '?'] :=
      List.forall_mem_map.2 fun c _ => rfl
    rw [Option.bind_some, insertOf?_append hnames hvalues, hnameItems, hvalueItems, if_pos hvalue,
      mapM_items hname, List.length_map]
    rfl
  · rfl

end Columns

/-- **What is read of the statements for a schema**: the name of the table and those of the columns,
as they are and in their order, each with its declared type in the first statement, where the column
of the ids is the key and no other is; and the place of a value for each column in the second. Where
a name has a NUL character in it, both statements are refused.

**Proof sketch.** Both statements are sequences of tokens whatever the names spell, because a quoted
name is one token (`spells_quoteName`). Between the brackets the tokens are cut at the commas, none
of which is in a definition, and each piece is read as the definition it was made of
(`readCreate?_create`, `readInsert?_insert`). -/
theorem read_statements (columns : List Column) :
    (readCreate? (create (columns.map Column.definition)) =
      if ∀ c ∈ columns, '\x00' ∉ c.name.toList then
        some ⟨tableName, columns.map fun c => ⟨c.name, c.kind.declared, c.isKey⟩⟩
      else none) ∧
    (readInsert? (Statement.insert (columns.map Column.definition)) =
      if ∀ c ∈ columns, '\x00' ∉ c.name.toList then
        some ⟨tableName, columns.map Column.name, columns.length⟩
      else none) ∧
    ∀ c ∈ columns, c.isKey = true ↔ c.source = .field ∧ c.name = idField := by
  refine ⟨?_, ?_, fun c _ => ?_⟩
  · simp [readCreate?_create, Column.definition, Function.comp_def]
  · simp [readInsert?_insert, Column.definition, Function.comp_def]
  · simp [Column.isKey]

end CardTable.Statement
