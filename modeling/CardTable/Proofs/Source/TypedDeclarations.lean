import CardTable.Script.Token
import CardTable.Source.Declaration
import Mathlib.Data.List.TakeWhile

set_option autoImplicit false

/-!
# Typed declarations in a text

What a text loses with the types of its declarations: the stretches in which typed declarations are
found, from the left to the right, and the text in which each of them is put down to its keyword,
its name and its equals sign.

## Main definitions

* `CardTable.Source.TypedDeclaration` — a typed declaration, by the pieces of its text.
* `CardTable.Script.typedStretches` — the stretches of a text in which typed declarations are found.
* `CardTable.Script.Drops` — a text, and the same one without the types of some declarations.

## Main results

* `CardTable.Source.exists_typed_of_typedDeclaration?` — what is found is a typed declaration.
* `CardTable.Script.drops_dropTypesFrom` — types are dropped in the stretches that are found.
-/

namespace CardTable.Source

open CardTable.Text (isWhite isWord)

/-! ## The text of a typed declaration -/

/-- A typed declaration, by the pieces of its text. -/
structure TypedDeclaration where
  /-- Its keyword and its name. -/
  head : DeclarationHead
  /-- The white space behind the keyword. -/
  white : List Char
  /-- The white space behind the name. -/
  space : List Char
  /-- The type. -/
  type : List Char
  keyword_mem : head.keyword ∈ declarators
  white_ne_nil : white ≠ []
  isWhite_white : ∀ c ∈ white, isWhite c = true
  isName : isName head.name = true
  isWhite_space : ∀ c ∈ space, isWhite c = true

namespace TypedDeclaration

/-- What stands behind the keyword, up to the type. -/
def nameText (d : TypedDeclaration) : List Char :=
  d.white ++ (d.head.name ++ (d.space ++ [':']))

/-- The text from the keyword to the equals sign. -/
def text (d : TypedDeclaration) : List Char :=
  d.head.keyword ++ (d.nameText ++ (d.type ++ ['=']))

/-- The text without the type. -/
def bare (d : TypedDeclaration) : List Char :=
  d.head.keyword ++ ' ' :: (d.head.name ++ [' ', '='])

end TypedDeclaration

/-- A declarator at the front of a text. -/
lemma eq_append_of_declarator? {cs word behind : List Char}
    (h : declarator? cs = some (word, behind)) : word ∈ declarators ∧ cs = word ++ behind := by
  simp only [declarator?, List.findSome?_eq_some_iff, Option.map_eq_some_iff, Prod.mk.injEq] at h
  obtain ⟨front, _, more, hdeclarators, ⟨_, hword, rfl, rfl⟩, _⟩ := h
  refine ⟨by simp [hdeclarators], ?_⟩
  simp only [dropWord?, Option.ite_none_right_eq_some, Option.some.injEq, List.isPrefixOf_iff_prefix]
    at hword
  obtain ⟨⟨left, rfl⟩, rfl⟩ := hword
  rw [List.drop_left]

/-- The white space at the front of a text. -/
lemma exists_of_dropWhite? {cs behind : List Char} (h : dropWhite? cs = some behind) :
    ∃ white, white ≠ [] ∧ (∀ c ∈ white, isWhite c = true) ∧ cs = white ++ behind := by
  cases cs with
  | nil => cases h
  | cons c rest =>
    simp only [dropWhite?, Option.ite_none_right_eq_some, Option.some.injEq] at h
    obtain ⟨hc, rfl⟩ := h
    refine ⟨c :: rest.takeWhile isWhite, List.cons_ne_nil _ _, ?_, ?_⟩
    · rintro d (_ | ⟨_, hd⟩)
      · exact hc
      · exact List.mem_takeWhile_imp hd
    · rw [List.cons_append, List.takeWhile_append_dropWhile]

/-- A type between its colon and its equals sign has one character at least, and no equals sign. -/
lemma behindType?_eq_some_iff {cs behind : List Char} : behindType? cs = some behind ↔
    ∃ type, type ≠ [] ∧ '=' ∉ type ∧ cs = ':' :: (type ++ '=' :: behind) := by
  constructor
  · intro h
    unfold behindType? at h
    split at h
    · next rest =>
      split at h
      · next htake hdrop =>
        obtain rfl := Option.some.inj h
        refine ⟨rest.takeWhile (· != '='), by rw [htake]; exact nofun, fun hmem => ?_, ?_⟩
        · exact absurd (List.mem_takeWhile_imp hmem) (by decide)
        · rw [← hdrop, List.takeWhile_append_dropWhile]
      · cases h
    · cases h
  · rintro ⟨type, hne, hequals, rfl⟩
    have htype : ∀ c ∈ type, (c != '=') = true := fun c hc => by
      rw [bne_iff_ne]
      exact fun h => hequals (h ▸ hc)
    obtain ⟨c, more, rfl⟩ := List.exists_cons_of_ne_nil hne
    rw [behindType?, List.takeWhile_append_of_pos htype, List.dropWhile_append_of_pos htype]
    rfl

/-- **What is found** is a typed declaration with a type of one character at least, whose equals
sign is the first one behind the colon. Its keyword begins a word. -/
theorem exists_typed_of_typedDeclaration? {previous : Option Char} {cs behind : List Char}
    {head : DeclarationHead} (h : typedDeclaration? previous cs = some (head, behind)) :
    previous.any isWord = false ∧ ∃ d : TypedDeclaration, d.head = head ∧ d.type ≠ [] ∧
      '=' ∉ d.type ∧ cs = d.text ++ behind := by
  simp only [typedDeclaration?, Option.ite_none_left_eq_some, Option.bind_eq_bind,
    Option.bind_eq_some_iff, Prod.exists, Option.ite_none_right_eq_some, Option.some.injEq,
    Prod.mk.injEq] at h
  obtain ⟨hprevious, keyword, afterWord, hword, afterWhite, hwhite, hname, left, htype, rfl, rfl⟩ := h
  obtain ⟨hkeyword, rfl⟩ := eq_append_of_declarator? hword
  obtain ⟨white, hne, hall, rfl⟩ := exists_of_dropWhite? hwhite
  obtain ⟨type, hsome, hequals, htype⟩ := behindType?_eq_some_iff.1 htype
  have hrest : afterWhite = afterWhite.takeWhile continuesName ++
      ((afterWhite.dropWhile continuesName).takeWhile isWhite ++
        ':' :: (type ++ '=' :: left)) := by
    rw [← htype, List.takeWhile_append_dropWhile, List.takeWhile_append_dropWhile]
  refine ⟨by simpa using hprevious, ⟨⟨keyword, _⟩, white,
    (afterWhite.dropWhile continuesName).takeWhile isWhite, type, hkeyword, hne, hall, hname,
    fun c hc => List.mem_takeWhile_imp hc⟩, rfl, hsome, hequals, ?_⟩
  simp only [TypedDeclaration.text, TypedDeclaration.nameText, List.append_assoc,
    List.cons_append, List.nil_append, ← hrest]

/-- What is found is a typed declaration. -/
lemma exists_of_typedDeclaration? {previous : Option Char} {cs behind : List Char}
    {head : DeclarationHead} (h : typedDeclaration? previous cs = some (head, behind)) :
    ∃ d : TypedDeclaration, d.head = head ∧ cs = d.text ++ behind := by
  obtain ⟨-, d, hhead, -, -, htext⟩ := exists_typed_of_typedDeclaration? h
  exact ⟨d, hhead, htext⟩

/-! ## Dropping types -/

/-- At a typed declaration its type is dropped. -/
lemma dropTypesFrom_of_some {previous : Option Char} {cs behind : List Char}
    {head : DeclarationHead} (h : typedDeclaration? previous cs = some (head, behind)) :
    dropTypesFrom previous cs =
      head.keyword ++ ' ' :: (head.name ++ ' ' :: '=' :: dropTypesFrom (some '=') behind) := by
  rw [dropTypesFrom.eq_def]
  split
  · exact absurd h (by simp [typedDeclaration?, declarator?, declarators, dropWord?])
  · split
    · next h' =>
      obtain ⟨⟩ := Option.some.inj (h.symm.trans h')
      rfl
    · next h' => cases h.symm.trans h'

/-- Every other character is kept. -/
lemma dropTypesFrom_of_none {previous : Option Char} {c : Char} {cs : List Char}
    (h : typedDeclaration? previous (c :: cs) = none) :
    dropTypesFrom previous (c :: cs) = c :: dropTypesFrom (some c) cs := by
  rw [dropTypesFrom.eq_def]
  dsimp only
  split
  · next h' => cases h.symm.trans h'
  · rfl

end CardTable.Source

namespace CardTable.Script

open CardTable.Source (TypedDeclaration typedDeclaration? dropTypesFrom)

/-! ## Stretches of a text -/

/-- The stretches of a text in which typed declarations are found, each from its keyword to its
equals sign, where `previous` is the character in front of the text. -/
def typedStretches (previous : Option Char) (gs : List Glyph) : List (List Glyph) :=
  match gs with
  | [] => []
  | g :: rest =>
    match _h : typedDeclaration? previous (chars (g :: rest)) with
    | some (_, behind) =>
      let n := (g :: rest).length - behind.length
      (g :: rest).take n :: typedStretches (some '=') ((g :: rest).drop n)
    | none => typedStretches (some g.char) rest
termination_by gs.length
decreasing_by
  · have := Source.length_of_typedDeclaration? _h
    simp only [chars, List.length_map, List.length_drop] at *
    omega
  · exact Nat.lt_succ_self _

/-- A located text, and the same one without the types of some declarations, which stand in
stretches that satisfy `ok`. -/
inductive Drops (ok : List Glyph → Prop) : List Glyph → List Char → Prop
  | nil : Drops ok [] []
  | keep {gs : List Glyph} {cs : List Char} (g : Glyph) (h : Drops ok gs cs) :
      Drops ok (g :: gs) (g.char :: cs)
  | declaration {s gs : List Glyph} {cs : List Char} (d : TypedDeclaration)
      (hs : chars s = d.text) (hok : ok s) (h : Drops ok gs cs) :
      Drops ok (s ++ gs) (d.bare ++ cs)

/-- The stretch of a typed declaration, and what is behind it. -/
lemma exists_stretch_of_typedDeclaration? {previous : Option Char} {gs : List Glyph}
    {head : Source.DeclarationHead} {behind : List Char}
    (h : typedDeclaration? previous (chars gs) = some (head, behind)) :
    ∃ d : TypedDeclaration, d.head = head ∧
      chars (gs.take (gs.length - behind.length)) = d.text ∧
      chars (gs.drop (gs.length - behind.length)) = behind := by
  obtain ⟨d, rfl, htext⟩ := Source.exists_of_typedDeclaration? h
  have hn : gs.length - behind.length = d.text.length := by
    have hlength := congrArg List.length htext
    simp only [chars, List.length_map, List.length_append] at hlength
    omega
  refine ⟨d, rfl, ?_, ?_⟩
  · rw [chars, List.map_take, ← chars, htext, hn, List.take_left]
  · rw [chars, List.map_drop, ← chars, htext, hn, List.drop_left]

/-- **Types are dropped in the stretches that are found.**

**Proof sketch.** Induction along the search for declarations, each step of which is a rule of
`Drops`. -/
theorem drops_dropTypesFrom {ok : List Glyph → Prop} {previous : Option Char} {gs : List Glyph}
    (h : ∀ s ∈ typedStretches previous gs, ok s) :
    Drops ok gs (dropTypesFrom previous (chars gs)) := by
  fun_induction typedStretches previous gs with
  | case1 =>
    rw [chars, List.map_nil, dropTypesFrom]
    exact .nil
  | case2 previous g rest head behind hfound n ih =>
    obtain ⟨d, rfl, htake, hdrop⟩ := exists_stretch_of_typedDeclaration? hfound
    have hdrops := Drops.declaration d htake (h _ (List.mem_cons_self ..))
      (ih fun s hs => h s (List.mem_cons_of_mem _ hs))
    rw [List.take_append_drop, hdrop] at hdrops
    rw [Source.dropTypesFrom_of_some hfound]
    simpa [TypedDeclaration.bare] using hdrops
  | case3 previous g rest hnone ih =>
    rw [chars, List.map_cons, Source.dropTypesFrom_of_none hnone]
    exact .keep g (ih h)

end CardTable.Script
