import CardTable.Proofs.Source.DefaultExports

set_option autoImplicit false

/-!
# Texts without typed declarations

A text from which the types of declarations are dropped holds no typed declaration any more, so that
dropping them once more changes nothing. What is left of a declaration in front of its equals sign
has no colon, and no declaration has an equals sign in front of its colon. So none begins in what is
left of another one. One that begins in front has its colon there too, and was there before.

## Main definitions

* `CardTable.Source.HoldsTyped` — texts that hold a typed declaration.
* `CardTable.Source.IsUntyped` — texts in which no typed declaration is found, by recursion.

## Main results

* `CardTable.Source.typedDeclaration?_eq_some_iff` — what is found in front of a text.
* `CardTable.Source.typedDeclaration?_dropTypesFrom` — no declaration comes to be in front of a
  text.
* `CardTable.Source.dropTypesFrom_eq_self_iff` — the texts that stay as they are.
* `CardTable.Source.dropTypes_settles` — what is left holds no typed declaration.
-/

namespace CardTable.Source

open CardTable.Text (isWhite isWord)

section Declarations

variable {previous : Option Char} {cs behind rest : List Char} {head : DeclarationHead}

/-! ## Declarations in front of a text -/

/-- The text up to the colon of a typed declaration. -/
def TypedDeclaration.stem (d : TypedDeclaration) : List Char :=
  d.head.keyword ++ (d.white ++ (d.head.name ++ d.space))

/-- The text of a typed declaration is cut at its colon. -/
lemma TypedDeclaration.text_append (d : TypedDeclaration) (behind : List Char) :
    d.text ++ behind = d.stem ++ ':' :: (d.type ++ '=' :: behind) := by
  simp [text, nameText, stem]

/-- In front of its colon a typed declaration has no equals sign. -/
lemma TypedDeclaration.equals_not_mem_stem (d : TypedDeclaration) : '=' ∉ d.stem := by
  have hname : ∀ {c}, continuesName c = true → c ≠ '=' := by
    rintro c hc rfl
    exact absurd hc (by decide)
  have hwhite : ∀ {c}, isWhite c = true → c ≠ '=' := by
    rintro c hc rfl
    exact absurd hc (by decide)
  intro hmem
  simp only [stem, List.mem_append] at hmem
  rcases hmem with hmem | hmem | hmem | hmem
  · exact hname ((Script.of_mem_declarators d.keyword_mem).1 _ hmem) rfl
  · exact hwhite (d.isWhite_white _ hmem) rfl
  · exact hname (Script.continuesName_of_mem d.isName hmem) rfl
  · exact hwhite (d.isWhite_space _ hmem) rfl

/-- The name does not go on behind itself. -/
lemma TypedDeclaration.head?_space_append (d : TypedDeclaration) (behind : List Char) :
    (d.space ++ ':' :: behind).head?.any continuesName = false := by
  cases hspace : d.space with
  | nil => rfl
  | cons c space =>
    refine Bool.eq_false_iff.2 fun hname => ?_
    have hwhite := isWhite_of_continuesName hname
    rw [d.isWhite_space c (hspace ▸ List.mem_cons_self ..)] at hwhite
    cases hwhite

/-- The white space behind the keyword ends at the name. -/
lemma TypedDeclaration.dropWhite?_white_append (d : TypedDeclaration) (behind : List Char) :
    dropWhite? (d.white ++ (d.head.name ++ behind)) = some (d.head.name ++ behind) := by
  obtain ⟨c, cs, hcs⟩ : ∃ c cs, d.head.name = c :: cs :=
    List.exists_cons_of_ne_nil fun hnil => absurd (hnil ▸ d.isName) (by decide)
  have hname : c ∈ d.head.name := hcs ▸ List.mem_cons_self ..
  have hc := isWhite_of_continuesName (Script.continuesName_of_mem d.isName hname)
  rw [hcs, List.cons_append]
  exact dropWhite?_append d.white_ne_nil d.isWhite_white hc _

/-- A declarator at the front of a text is found. -/
lemma declarator?_append {word : List Char} (h : word ∈ declarators) (cs : List Char) :
    declarator? (word ++ cs) = some (word, cs) := by
  simp only [declarators, List.mem_cons, List.not_mem_nil, or_false] at h
  rcases h with rfl | rfl | rfl <;> rfl

/-- **What is found in front of a text**, exactly. -/
theorem typedDeclaration?_eq_some_iff :
    typedDeclaration? previous cs = some (head, behind) ↔
      previous.any isWord = false ∧ ∃ d : TypedDeclaration, d.head = head ∧ d.type ≠ [] ∧
        '=' ∉ d.type ∧ cs = d.text ++ behind := by
  refine ⟨exists_typed_of_typedDeclaration?, ?_⟩
  rintro ⟨hprevious, d, rfl, hne, hequals, rfl⟩
  -- what stands behind the name is white space and the colon
  have hcolon : (d.space ++ ':' :: (d.type ++ '=' :: behind)).dropWhile isWhite =
      ':' :: (d.type ++ '=' :: behind) := by
    rw [List.dropWhile_append_of_pos d.isWhite_space]
    exact List.dropWhile_cons_of_neg (by decide)
  have hstop : (d.space ++ ':' :: (d.type ++ '=' :: behind)).head?.any continuesName = false :=
    d.head?_space_append _
  generalize htail : d.space ++ ':' :: (d.type ++ '=' :: behind) = tail at hcolon hstop
  obtain ⟨htake, hdrop⟩ :=
    Text.span_append (fun c hc => Script.continuesName_of_mem d.isName hc) hstop
  have hwhite : dropWhite? (d.white ++ (d.head.name ++ tail)) = some (d.head.name ++ tail) :=
    d.dropWhite?_white_append tail
  have htype : behindType? (':' :: (d.type ++ '=' :: behind)) = some behind :=
    behindType?_eq_some_iff.2 ⟨_, hne, hequals, rfl⟩
  have hstem : d.text ++ behind = d.head.keyword ++ (d.white ++ (d.head.name ++ tail)) := by
    simp [d.text_append, TypedDeclaration.stem, ← htail]
  rw [hstem, typedDeclaration?, if_neg (by simp [hprevious]), declarator?_append d.keyword_mem]
  simp only [Option.bind_eq_bind, Option.bind_some, hwhite, htake, hdrop, hcolon, htype, d.isName,
    if_true]

/-! ## Declarations in front of what is left -/

/-- What is left of a declaration in front of its equals sign has no colon. -/
lemma TypedDeclaration.colon_not_mem_front (d : TypedDeclaration) : ':' ∉ d.front := by
  have hname : ∀ {c}, continuesName c = true → c ≠ ':' := by
    rintro c hc rfl
    exact absurd hc (by decide)
  intro hmem
  simp only [front, List.mem_append, List.mem_cons, List.not_mem_nil, or_false] at hmem
  rcases hmem with hmem | hmem | hmem | hmem
  · exact hname ((Script.of_mem_declarators d.keyword_mem).1 _ hmem) rfl
  · exact absurd hmem (by decide)
  · exact hname (Script.continuesName_of_mem d.isName hmem) rfl
  · exact absurd hmem (by decide)

/-- Without the type of the declaration in front of a text. -/
lemma dropTypesFrom_eq_front (h : typedDeclaration? previous cs = some (head, behind)) :
    ∃ d : TypedDeclaration, d.head = head ∧
      dropTypesFrom previous cs = d.front ++ '=' :: dropTypesFrom (some '=') behind := by
  obtain ⟨d, rfl, -⟩ := exists_of_typedDeclaration? h
  exact ⟨d, rfl, by simp [dropTypesFrom_of_some h, TypedDeclaration.front]⟩

/-- **Without a colon in front of its first equals sign** a text has no declaration in front. -/
theorem typedDeclaration?_of_colon_not_mem (h : ':' ∉ cs) :
    typedDeclaration? previous (cs ++ '=' :: rest) = none := by
  by_contra hfound
  obtain ⟨⟨head, behind⟩, hfound⟩ := Option.ne_none_iff_exists'.1 hfound
  obtain ⟨-, d, -, -, -, htext⟩ := typedDeclaration?_eq_some_iff.1 hfound
  have hstem : '=' ∉ d.stem ++ [':'] := by simp [d.equals_not_mem_stem]
  have hprefix : d.stem ++ [':'] <+: cs ++ '=' :: rest := by
    rw [htext, d.text_append]
    exact ⟨d.type ++ '=' :: behind, by simp⟩
  exact h ((prefix_of_prefix_append_cons hstem hprefix).mem (by simp))

/-- The first character is kept. -/
lemma head?_dropTypesFrom : (dropTypesFrom previous cs).head? = cs.head? := by
  cases cs with
  | nil => rw [dropTypesFrom]
  | cons c cs =>
    cases hfound : typedDeclaration? previous (c :: cs) with
    | some found =>
      obtain ⟨-, -, left, hleft⟩ := exists_of_typedDeclaration?_cons hfound
      rw [hleft, List.head?_cons, List.head?_cons]
    | none => rw [dropTypesFrom_of_none hfound, List.head?_cons, List.head?_cons]

/-- No equals sign comes to be. -/
lemma equals_mem_of_dropTypesFrom (h : '=' ∈ dropTypesFrom previous cs) : '=' ∈ cs := by
  fun_induction dropTypesFrom previous cs with
  | case1 => exact h
  | case2 previous c cs head behind hfound ih =>
    obtain ⟨d, -, htext⟩ := exists_of_typedDeclaration? hfound
    simp [htext, TypedDeclaration.text]
  | case3 previous c cs hnone ih =>
    rcases List.mem_cons.1 h with rfl | h
    · exact List.mem_cons_self ..
    · exact List.mem_cons_of_mem _ (ih h)

/-- **A colon in front of the first equals sign**, and all that stands in front of it, is kept, and
what stands behind it is left of what stood there.

**Proof sketch.** Induction on the text. A declaration at its front would leave an equals sign in
front of the colon, since none of its own characters up to there is a colon. So the first character
is kept. -/
theorem exists_behind_colon {front left : List Char} (hequals : '=' ∉ front)
    (h : dropTypesFrom previous cs = front ++ ':' :: left) :
    ∃ previous' behind, cs = front ++ ':' :: behind ∧ left = dropTypesFrom previous' behind := by
  induction cs generalizing previous front with
  | nil =>
    rw [dropTypesFrom] at h
    exact absurd h.symm (by simp)
  | cons c cs ih =>
    cases hfound : typedDeclaration? previous (c :: cs) with
    | some found =>
      -- the colon would stand in front of the equals sign that is left of the declaration
      obtain ⟨head, behind⟩ := found
      obtain ⟨d, -, hleft⟩ := dropTypesFrom_eq_front hfound
      have hcolon : '=' ∉ front ++ [':'] := by simp [hequals]
      have hprefix : front ++ [':'] <+: d.front ++ '=' :: dropTypesFrom (some '=') behind := by
        rw [← hleft, h]
        exact ⟨left, by simp⟩
      exact absurd ((prefix_of_prefix_append_cons hcolon hprefix).mem (by simp)) d.colon_not_mem_front
    | none =>
      rw [dropTypesFrom_of_none hfound] at h
      cases front with
      | nil =>
        obtain ⟨rfl, rfl⟩ := List.cons.inj h
        exact ⟨some ':', cs, rfl, rfl⟩
      | cons e front =>
        rw [List.cons_append] at h
        obtain ⟨rfl, htail⟩ := List.cons.inj h
        obtain ⟨previous', behind, rfl, hbehind⟩ :=
          ih (fun hmem => hequals (List.mem_cons_of_mem _ hmem)) htail
        exact ⟨previous', behind, rfl, hbehind⟩

/-- **No declaration comes to be in front of a text** when types are dropped: its stem was there
before, and so was a type, since the character behind the colon and an equals sign further on are
still those of the text. -/
theorem typedDeclaration?_dropTypesFrom (h : typedDeclaration? previous cs = none) :
    typedDeclaration? previous (dropTypesFrom previous cs) = none := by
  by_contra hfound
  obtain ⟨⟨head, left⟩, hfound⟩ := Option.ne_none_iff_exists'.1 hfound
  obtain ⟨hprevious, d, rfl, hne, hequals, htext⟩ := typedDeclaration?_eq_some_iff.1 hfound
  rw [d.text_append] at htext
  obtain ⟨previous', behind, rfl, hbehind⟩ := exists_behind_colon d.equals_not_mem_stem htext
  have hleft : '=' ∈ dropTypesFrom previous' behind := hbehind ▸ by simp
  have hmem : '=' ∈ behind := equals_mem_of_dropTypesFrom hleft
  obtain ⟨type, rest, rfl, htype⟩ := List.eq_append_cons_of_mem hmem
  have hsome : type ≠ [] := by
    rintro rfl
    have hhead := @head?_dropTypesFrom previous' ([] ++ '=' :: rest)
    obtain ⟨c, cs, hcs⟩ := List.exists_cons_of_ne_nil hne
    rw [← hbehind, hcs] at hhead
    obtain rfl : c = '=' := Option.some.inj hhead
    exact hequals (hcs ▸ List.mem_cons_self ..)
  have hbefore : typedDeclaration? previous (d.stem ++ ':' :: (type ++ '=' :: rest)) =
      some (d.head, rest) :=
    typedDeclaration?_eq_some_iff.2 ⟨hprevious, { d with type := type }, rfl, hsome, htype,
      (TypedDeclaration.text_append { d with type := type } rest).symm⟩
  cases h.symm.trans hbefore

/-! ## Texts without declarations -/

/-- No typed declaration is found in a text, `previous` being the character in front of it. -/
def IsUntyped (previous : Option Char) : List Char → Prop
  | [] => True
  | c :: cs => typedDeclaration? previous (c :: cs) = none ∧ IsUntyped (some c) cs

/-- No declaration is found in what is left of one. -/
lemma isUntyped_append (hcolon : ':' ∉ cs) (h : IsUntyped (some '=') rest) :
    IsUntyped previous (cs ++ '=' :: rest) := by
  induction cs generalizing previous with
  | nil => exact ⟨typedDeclaration?_of_colon_not_mem hcolon, h⟩
  | cons c cs ih =>
    exact ⟨typedDeclaration?_of_colon_not_mem hcolon,
      ih fun hmem => hcolon (List.mem_cons_of_mem _ hmem)⟩

/-- **No declaration is found** once the types are dropped.

**Proof sketch.** Induction along the dropping of types. What is left of a declaration has no colon,
so that none is found in it; and where none was found none comes to be
(`typedDeclaration?_dropTypesFrom`). -/
theorem isUntyped_dropTypesFrom : IsUntyped previous (dropTypesFrom previous cs) := by
  fun_induction dropTypesFrom previous cs with
  | case1 => trivial
  | case2 previous c cs head behind hfound ih =>
    obtain ⟨d, rfl, -⟩ := exists_of_typedDeclaration? hfound
    have hleft := @isUntyped_append previous _ _ d.colon_not_mem_front ih
    simpa [TypedDeclaration.front] using hleft
  | case3 previous c cs hnone ih =>
    have hfront := typedDeclaration?_dropTypesFrom hnone
    rw [dropTypesFrom_of_none hnone] at hfront
    exact ⟨hfront, ih⟩

/-- **The texts that stay as they are** when types are dropped are those in which no declaration is
found. -/
theorem dropTypesFrom_eq_self_iff : dropTypesFrom previous cs = cs ↔ IsUntyped previous cs := by
  constructor
  · intro h
    have hleft := @isUntyped_dropTypesFrom previous cs
    rwa [h] at hleft
  · intro h
    induction cs generalizing previous with
    | nil => rw [dropTypesFrom]
    | cons c cs ih => rw [dropTypesFrom_of_none h.1, ih h.2]

/-- The text holds a typed declaration with a first value: its keyword begins a word, its type has
one character at least, and its equals sign is the first one behind the colon. -/
def HoldsTyped (cs : List Char) : Prop :=
  ∃ (front : List Char) (d : TypedDeclaration) (behind : List Char),
    front.getLast?.any isWord = false ∧ d.type ≠ [] ∧ '=' ∉ d.type ∧ cs = front ++ (d.text ++ behind)

/-- Where no declaration is found in a text, none is found at any place of it. -/
lemma isUntyped_iff_forall : IsUntyped previous cs ↔ ∀ front behind, cs = front ++ behind →
    typedDeclaration? (front.getLast?.or previous) behind = none := by
  induction cs generalizing previous with
  | nil =>
    refine iff_of_true trivial fun front behind h => ?_
    obtain ⟨rfl, rfl⟩ := List.append_eq_nil_iff.1 h.symm
    simp [typedDeclaration?, declarator?, declarators, dropWord?]
  | cons c cs ih =>
    have hlast : ∀ front : List Char,
        (c :: front).getLast?.or previous = front.getLast?.or (some c) := by
      intro front
      rw [List.getLast?_cons]
      cases front.getLast? <;> rfl
    rw [IsUntyped, ih]
    constructor
    · rintro ⟨hfirst, hrest⟩ front behind h
      cases front with
      | nil =>
        obtain rfl : c :: cs = behind := h
        exact hfirst
      | cons d front =>
        rw [List.cons_append] at h
        obtain ⟨rfl, hcs⟩ := List.cons.inj h
        rw [hlast]
        exact hrest front behind hcs
    · intro h
      refine ⟨h [] (c :: cs) rfl, fun front behind hcs => ?_⟩
      rw [← hlast]
      exact h (c :: front) behind (congrArg (c :: ·) hcs)

/-- No declaration is found exactly in a text that holds none. -/
lemma isUntyped_iff_not_holdsTyped : IsUntyped none cs ↔ ¬ HoldsTyped cs := by
  rw [isUntyped_iff_forall]
  constructor
  · rintro h ⟨front, d, behind, hprevious, hne, hequals, hcs⟩
    have hnone := h front (d.text ++ behind) hcs
    rw [Option.or_none] at hnone
    cases hnone.symm.trans
      (typedDeclaration?_eq_some_iff.2 ⟨hprevious, d, rfl, hne, hequals, rfl⟩)
  · intro h front behind hcs
    by_contra hfound
    obtain ⟨⟨head, left⟩, hfound⟩ := Option.ne_none_iff_exists'.1 hfound
    obtain ⟨hprevious, d, -, hne, hequals, rfl⟩ := typedDeclaration?_eq_some_iff.1 hfound
    rw [Option.or_none] at hprevious
    exact h ⟨front, d, left, hprevious, hne, hequals, hcs⟩

end Declarations

/-- **What is left of a source text** once the types of its declarations are dropped holds no typed
declaration, so that dropping types once more changes nothing; and only texts that held one are
changed.

**Proof sketch.** What is left holds no declaration (`isUntyped_dropTypesFrom`), and the texts that
stay as they are are those that hold none (`dropTypesFrom_eq_self_iff`). -/
theorem dropTypes_settles (source : String) :
    ¬ HoldsTyped (dropTypes source).toList ∧ dropTypes (dropTypes source) = dropTypes source ∧
      (dropTypes source = source ↔ ¬ HoldsTyped source.toList) := by
  have hself : ∀ s : String, dropTypes s = s ↔ ¬ HoldsTyped s.toList := by
    intro s
    rw [← isUntyped_iff_not_holdsTyped, ← dropTypesFrom_eq_self_iff, dropTypes,
      ← String.toList_inj, String.toList_ofList]
  have hleft : ¬ HoldsTyped (dropTypes source).toList := by
    rw [← isUntyped_iff_not_holdsTyped, dropTypes, String.toList_ofList]
    exact isUntyped_dropTypesFrom
  exact ⟨hleft, (hself _).2 hleft, hself source⟩

end CardTable.Source
