import CardTable.Source.Import
import CardTable.Text.Alphanumeric

set_option autoImplicit false

/-!
# Typed declarations

A declaration with a type and a first value, such as `const name: Type = value`, loses its type:
what stands between the name and the first equals sign behind the colon is dropped. The text is
taken as it is, so the same words in a comment or a string literal lose their type too, and a type
with an equals sign in it is cut short.

## Main definitions

* `CardTable.Source.typedDeclaration?` — the typed declaration at the front of a text.
* `CardTable.Source.dropTypes` — a text without the types of its declarations.

## Main results

* `CardTable.Source.length_of_typedDeclaration?` — a declaration is taken off the text.
-/

namespace CardTable.Source

open CardTable.Text (isWhite isWord)

/-- The head of a typed declaration: its keyword and its name. -/
structure DeclarationHead where
  /-- The keyword. -/
  keyword : List Char
  /-- The declared name. -/
  name : List Char

/-- The words that begin a declaration. -/
def declarators : List (List Char) :=
  ["const".toList, "let".toList, "var".toList]

/-- The declarator at the front of a text, and what is behind it. -/
def declarator? (cs : List Char) : Option (List Char × List Char) :=
  declarators.findSome? fun word => (dropWord? word cs).map fun behind => (word, behind)

/-- The white space at the front of a text, of which there must be some, is skipped. -/
def dropWhite? : List Char → Option (List Char)
  | [] => none
  | c :: rest => if isWhite c then some (rest.dropWhile isWhite) else none

/-- The text behind a colon, a type of one character at least that holds no equals sign, and an
equals sign. -/
def behindType? : List Char → Option (List Char)
  | ':' :: rest =>
    match rest.takeWhile (· != '='), rest.dropWhile (· != '=') with
    | _ :: _, '=' :: behind => some behind
    | _, _ => none
  | _ => none

/-- The typed declaration at the front of a text, `previous` being the character in front of it, and
what is behind its equals sign. The keyword begins a word. -/
def typedDeclaration? (previous : Option Char) (cs : List Char) :
    Option (DeclarationHead × List Char) :=
  if previous.any isWord then none
  else do
    let (keyword, cs) ← declarator? cs
    let cs ← dropWhite? cs
    let name := cs.takeWhile continuesName
    if isName name then
      let behind ← behindType? ((cs.dropWhile continuesName).dropWhile isWhite)
      some (⟨keyword, name⟩, behind)
    else none

/-- What is behind white space is no longer than the text. -/
theorem length_of_dropWhite? {cs behind : List Char} (h : dropWhite? cs = some behind) :
    behind.length ≤ cs.length := by
  cases cs with
  | nil => simp [dropWhite?] at h
  | cons c rest =>
    simp only [dropWhite?, Option.ite_none_right_eq_some, Option.some.injEq] at h
    obtain ⟨_, rfl⟩ := h
    exact Nat.le_succ_of_le (List.dropWhile_sublist _).length_le

/-- A type is taken off the text. -/
theorem length_of_behindType? {cs behind : List Char} (h : behindType? cs = some behind) :
    behind.length < cs.length := by
  unfold behindType? at h
  split at h
  · next rest =>
    split at h
    · next hdrop =>
      simp only [Option.some.injEq] at h
      subst h
      have := (List.dropWhile_sublist (· != '=') (l := rest)).length_le
      simp only [hdrop, List.length_cons] at this
      simp only [List.length_cons]
      omega
    · simp at h
  · simp at h

/-- What is behind a declarator is no longer than the text. -/
theorem length_of_declarator? {cs word behind : List Char}
    (h : declarator? cs = some (word, behind)) : behind.length ≤ cs.length := by
  simp only [declarator?, List.findSome?_eq_some_iff, Option.map_eq_some_iff, Prod.mk.injEq] at h
  obtain ⟨_, _, _, _, ⟨_, hword, _, rfl⟩, _⟩ := h
  exact length_of_dropWord? hword

/-- A typed declaration is taken off the text. -/
theorem length_of_typedDeclaration? {previous : Option Char} {cs behind : List Char}
    {head : DeclarationHead} (h : typedDeclaration? previous cs = some (head, behind)) :
    behind.length < cs.length := by
  simp only [typedDeclaration?, Option.ite_none_left_eq_some, Option.bind_eq_bind,
    Option.bind_eq_some_iff, Prod.exists, Option.ite_none_right_eq_some, Option.some.injEq,
    Prod.mk.injEq] at h
  obtain ⟨_, _, afterWord, hword, afterWhite, hwhite, _, _, htype, _, rfl⟩ := h
  have := length_of_declarator? hword
  have := length_of_dropWhite? hwhite
  have := length_of_behindType? htype
  have h1 : (afterWhite.dropWhile continuesName).length ≤ afterWhite.length :=
    (List.dropWhile_sublist _).length_le
  have h2 : ((afterWhite.dropWhile continuesName).dropWhile isWhite).length
      ≤ (afterWhite.dropWhile continuesName).length := (List.dropWhile_sublist _).length_le
  omega

/-- The text `cs` without the types of its declarations, `previous` being the character in front
of it. -/
def dropTypesFrom (previous : Option Char) (cs : List Char) : List Char :=
  match cs with
  | [] => []
  | c :: rest =>
    match _h : typedDeclaration? previous (c :: rest) with
    | some (head, behind) =>
      head.keyword ++ ' ' :: (head.name ++ ' ' :: '=' :: dropTypesFrom (some '=') behind)
    | none => c :: dropTypesFrom (some c) rest
termination_by cs.length
decreasing_by
  · exact length_of_typedDeclaration? _h
  · exact Nat.lt_succ_self _

/-- The text without the types of its declarations. -/
def dropTypes (source : String) : String :=
  String.ofList (dropTypesFrom none source.toList)

end CardTable.Source
