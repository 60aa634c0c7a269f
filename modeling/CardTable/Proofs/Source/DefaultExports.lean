import CardTable.Proofs.Source.DroppedTypes
import CardTable.Source.Module

set_option autoImplicit false

/-!
# Default exports

A module is refused for want of a default export once its import lines are cut out and the types of
its declarations are dropped. No type declaration begins in the text of a default export, and the
text that is left of a declaration holds none. So dropping types makes no default export, and it
takes one away just if it stands in a stretch that is found to be a typed declaration. Such a
stretch reaches up to the next equals sign, which may be the one of a later statement.

## Main definitions

* `CardTable.Source.IsDefaultExport` — the text of a default export.
* `CardTable.Source.HoldsExport` — texts that hold one.
* `CardTable.Source.BeginsNone` — texts in which no declaration begins.

## Main results

* `CardTable.Source.exportDefault?_eq_none_iff` — where no default export is found there is none.
* `CardTable.Source.prefix_dropTypesFrom_iff` — what stands in front when types are dropped.
* `CardTable.Script.holdsExport_dropTypesFrom_iff` — the default exports that are left.
* `CardTable.Script.ofSource_missingExport_iff` — the sources that are refused.
-/

namespace CardTable

/-! ## Pieces of lists -/

section Pieces

variable {α : Type} {x : α} {es as bs : List α}

/-- What stands in front, without an element that ends the first part, stands in this part. -/
lemma prefix_of_prefix_append_cons (hx : x ∉ es) (h : es <+: as ++ x :: bs) : es <+: as := by
  have hfirst : as ++ [x] <+: as ++ x :: bs := ⟨bs, by simp⟩
  rcases List.prefix_or_prefix_of_prefix h hfirst with hle | hge
  · rcases List.prefix_concat_iff.1 hle with rfl | hle
    · exact absurd (List.mem_append_right _ (List.mem_singleton_self x)) hx
    · exact hle
  · exact absurd (hge.mem (List.mem_append_right _ (List.mem_singleton_self x))) hx

/-- A piece without an element stands in front of it or behind it. -/
lemma infix_append_cons_iff (hx : x ∉ es) :
    es <:+: as ++ x :: bs ↔ es <:+: as ∨ es <:+: bs := by
  constructor
  · intro h
    induction as with
    | nil =>
      rcases List.infix_cons_iff.1 h with hprefix | hrest
      · exact .inl (prefix_of_prefix_append_cons hx hprefix).isInfix
      · exact .inr hrest
    | cons a as ih =>
      rcases List.infix_cons_iff.1 h with hprefix | hrest
      · have hfront : es <+: a :: as ++ x :: bs := hprefix
        exact .inl (prefix_of_prefix_append_cons hx hfront).isInfix
      · exact (ih hrest).imp (fun h => h.trans (List.suffix_cons ..).isInfix) id
  · rintro (h | h)
    · exact h.trans (List.prefix_append ..).isInfix
    · exact h.trans ((List.suffix_cons ..).trans (List.suffix_append ..)).isInfix

end Pieces

namespace Source

open CardTable.Text (isWhite isWord)

/-! ## Texts of default exports -/

/-- The text of a default export: two words, each with white space behind it. -/
def IsDefaultExport (es : List Char) : Prop :=
  ∃ white space, white ≠ [] ∧ space ≠ [] ∧ (∀ c ∈ white, isWhite c = true) ∧
    (∀ c ∈ space, isWhite c = true) ∧
    es = "export".toList ++ (white ++ ("default".toList ++ space))

/-- The text holds a default export. -/
def HoldsExport (cs : List Char) : Prop :=
  ∃ es, IsDefaultExport es ∧ es <:+: cs

section Exports

variable {cs es behind word : List Char} {c : Char}

/-- The text of a default export is not empty. -/
lemma IsDefaultExport.ne_nil (h : IsDefaultExport es) : es ≠ [] := by
  obtain ⟨white, space, -, -, -, -, rfl⟩ := h
  exact List.cons_ne_nil _ _

/-- The text of a default export has no equals sign. -/
lemma IsDefaultExport.equals_not_mem (h : IsDefaultExport es) : '=' ∉ es := by
  obtain ⟨white, space, -, -, hwhite, hspace, rfl⟩ := h
  intro hmem
  simp only [List.mem_append] at hmem
  rcases hmem with hmem | hmem | hmem | hmem
  · exact absurd hmem (by decide)
  · exact absurd (hwhite _ hmem) (by decide)
  · exact absurd hmem (by decide)
  · exact absurd (hspace _ hmem) (by decide)

/-- The rest behind a word at the front. -/
lemma dropWord?_append (word cs : List Char) : dropWord? word (word ++ cs) = some cs := by
  have hprefix : word.isPrefixOf (word ++ cs) = true :=
    List.isPrefixOf_iff_prefix.2 (List.prefix_append ..)
  rw [dropWord?, if_pos hprefix, List.drop_left]

/-- What is found is a word at the front. -/
lemma eq_append_of_dropWord? (h : dropWord? word cs = some behind) : cs = word ++ behind := by
  simp only [dropWord?, Option.ite_none_right_eq_some, Option.some.injEq,
    List.isPrefixOf_iff_prefix] at h
  obtain ⟨⟨left, rfl⟩, rfl⟩ := h
  rw [List.drop_left]

/-- White space in front of another character is skipped. -/
lemma dropWhite?_append {white : List Char} (hne : white ≠ [])
    (hwhite : ∀ c ∈ white, isWhite c = true) (hc : isWhite c = false) (cs : List Char) :
    dropWhite? (white ++ c :: cs) = some (c :: cs) := by
  cases white with
  | nil => exact absurd rfl hne
  | cons d white =>
    obtain ⟨hd, hwhite⟩ := List.forall_mem_cons.1 hwhite
    rw [List.cons_append, dropWhite?, if_pos hd, List.dropWhile_append_of_pos hwhite,
      List.dropWhile_cons_of_neg (by simp [hc])]

/-- **A default export at the front** is found. -/
theorem behindExport?_ne_none_iff :
    behindExport? cs ≠ none ↔ ∃ es, IsDefaultExport es ∧ es <+: cs := by
  rw [Option.ne_none_iff_exists']
  constructor
  · rintro ⟨behind, h⟩
    simp only [behindExport?, Option.bind_eq_bind, Option.bind_eq_some_iff] at h
    obtain ⟨afterExport, hexport, afterWhite, hwhite, afterDefault, hdefault, hspace⟩ := h
    obtain ⟨white, hne, hall, rfl⟩ := exists_of_dropWhite? hwhite
    obtain ⟨space, hne', hall', rfl⟩ := exists_of_dropWhite? hspace
    refine ⟨_, ⟨white, space, hne, hne', hall, hall', rfl⟩, behind, ?_⟩
    rw [eq_append_of_dropWord? hexport, eq_append_of_dropWord? hdefault]
    simp only [List.append_assoc]
  · rintro ⟨_, ⟨white, space, hne, hne', hall, hall', rfl⟩, rest, rfl⟩
    obtain ⟨d, space, rfl⟩ := List.exists_cons_of_ne_nil hne'
    have hskip := dropWhite?_append hne hall (by decide : isWhite 'd' = false)
      ("efault".toList ++ (d :: space ++ rest))
    have hdefault : dropWhite? (white ++ ("default".toList ++ (d :: space ++ rest))) =
        some ("default".toList ++ (d :: space ++ rest)) := hskip
    have hlast : dropWhite? (d :: space ++ rest) = some ((space ++ rest).dropWhile isWhite) := by
      rw [List.cons_append, dropWhite?, if_pos (hall' d (List.mem_cons_self ..))]
    refine ⟨(space ++ rest).dropWhile isWhite, ?_⟩
    simp only [List.append_assoc]
    simp only [behindExport?, Option.bind_eq_bind, dropWord?_append, Option.bind_some, hdefault,
      hlast]

/-- **Where no default export is found** there is none. -/
theorem exportDefault?_eq_none_iff : exportDefault? cs = none ↔ ¬ HoldsExport cs := by
  induction cs with
  | nil =>
    refine iff_of_true rfl ?_
    rintro ⟨es, hes, hinfix⟩
    exact hes.ne_nil (List.infix_nil.1 hinfix)
  | cons c rest ih =>
    have hcons : HoldsExport (c :: rest) ↔ behindExport? (c :: rest) ≠ none ∨ HoldsExport rest := by
      rw [behindExport?_ne_none_iff]
      simp only [HoldsExport, List.infix_cons_iff, and_or_left, exists_or]
    rw [hcons, exportDefault?]
    cases hfound : behindExport? (c :: rest) with
    | some behind => simp
    | none =>
      rw [Option.map_eq_none_iff, ih]
      simp

end Exports

/-! ## Declarations in front of the texts of default exports -/

/-- The letters with which declarations begin. -/
def initials : List Char :=
  ['c', 'l', 'v']

/-- No declaration begins in the text `es` behind the character `previous`: its letters are other
ones, or they stand inside words. -/
def BeginsNone (previous : Option Char) : List Char → Prop
  | [] => True
  | c :: cs => (previous.any isWord = true ∨ c ∉ initials) ∧ BeginsNone (some c) cs

section BeginsNone

variable {previous : Option Char} {cs es behind : List Char} {c : Char} {head : DeclarationHead}

/-- No declaration begins in front of a text in which none begins, if there is none of the
letters. -/
lemma beginsNone_append (h : ∀ c ∈ cs, c ∉ initials) (hes : ∀ previous, BeginsNone previous es) :
    BeginsNone previous (cs ++ es) := by
  induction cs generalizing previous with
  | nil => exact hes previous
  | cons c cs ih =>
    obtain ⟨hc, hcs⟩ := List.forall_mem_cons.1 h
    exact ⟨.inr hc, ih hcs⟩

/-- White space is none of the letters. -/
lemma not_mem_initials_of_isWhite (h : isWhite c = true) : c ∉ initials := by
  have hplain : ∀ d ∈ initials, isWhite d = false := by decide
  intro hc
  rw [hplain c hc] at h
  cases h

/-- **No declaration begins in the text of a default export**: the only letter with which one may
begin stands inside a word. -/
theorem IsDefaultExport.beginsNone (h : IsDefaultExport es) : BeginsNone previous es := by
  obtain ⟨white, space, -, -, hwhite, hspace, rfl⟩ := h
  have hplain : ∀ {cs : List Char}, (∀ c ∈ cs, isWhite c = true) → ∀ c ∈ cs, c ∉ initials :=
    fun hcs c hc => not_mem_initials_of_isWhite (hcs c hc)
  have hlast : BeginsNone (some 't') space := by
    rw [← List.append_nil space]
    exact beginsNone_append (hplain hspace) fun _ => trivial
  have hdefault : ∀ previous, BeginsNone previous ("default".toList ++ space) := fun _ =>
    ⟨.inr (by decide), .inr (by decide), .inr (by decide), .inr (by decide), .inr (by decide),
      .inl (by decide), .inr (by decide), hlast⟩
  exact beginsNone_append (by decide) fun _ => beginsNone_append (hplain hwhite) hdefault

/-- The first letter of a declaration is one of them, and the declaration begins with it without its
type too. -/
lemma exists_of_typedDeclaration?_cons
    (h : typedDeclaration? previous (c :: cs) = some (head, behind)) :
    previous.any isWord = false ∧ c ∈ initials ∧
      ∃ rest, dropTypesFrom previous (c :: cs) = c :: rest := by
  have hprevious : previous.any isWord = false := by
    by_contra hword
    rw [typedDeclaration?, if_pos (by simpa using hword)] at h
    cases h
  obtain ⟨d, rfl, htext⟩ := exists_of_typedDeclaration? h
  have hmem := d.keyword_mem
  rw [dropTypesFrom_of_some h]
  rw [TypedDeclaration.text] at htext
  simp only [declarators, List.mem_cons, List.not_mem_nil, or_false] at hmem
  rcases hmem with hkeyword | hkeyword | hkeyword
  all_goals
    rw [hkeyword] at htext ⊢
    obtain ⟨rfl, -⟩ := List.cons.inj htext
    exact ⟨hprevious, by decide, _, rfl⟩

/-- **What stands in front when types are dropped**: a text in which no declaration begins stands
there just if it stood there before.

**Proof sketch.** Induction on what stands in front. Where a declaration is found its first
character is left, which begins a declaration and therefore is not that of the text; elsewhere the
character is kept. -/
theorem prefix_dropTypesFrom_iff (h : BeginsNone previous es) :
    es <+: dropTypesFrom previous cs ↔ es <+: cs := by
  induction es generalizing previous cs with
  | nil => exact iff_of_true List.nil_prefix List.nil_prefix
  | cons e es ih =>
    obtain ⟨he, hes⟩ := h
    cases cs with
    | nil => rw [dropTypesFrom]
    | cons c rest =>
      cases hfound : typedDeclaration? previous (c :: rest) with
      | some found =>
        obtain ⟨hprevious, hc, left, hleft⟩ := exists_of_typedDeclaration?_cons hfound
        have hne : e ≠ c := by
          rintro rfl
          rcases he with hword | hplain
          · rw [hprevious] at hword
            cases hword
          · exact hplain hc
        rw [hleft, List.cons_prefix_cons, List.cons_prefix_cons]
        exact iff_of_false (fun h => hne h.1) fun h => hne h.1
      | none =>
        rw [dropTypesFrom_of_none hfound, List.cons_prefix_cons, List.cons_prefix_cons]
        refine and_congr_right ?_
        rintro rfl
        exact ih hes

end BeginsNone

/-! ## Declarations without their types -/

/-- What is left of a declaration in front of its equals sign. -/
def TypedDeclaration.front (d : TypedDeclaration) : List Char :=
  d.head.keyword ++ ' ' :: (d.head.name ++ [' '])

/-- Names hold no white space. -/
lemma isWhite_of_continuesName {c : Char} (h : continuesName c = true) : isWhite c = false := by
  by_contra hwhite
  have hword := (Script.of_isWhite (by simpa using hwhite)).2.1
  rw [(Script.of_continuesName h).1] at hword
  cases hword

/-- What is left of a declaration has two spaces. -/
lemma TypedDeclaration.countP_front (d : TypedDeclaration) : d.front.countP isWhite = 2 := by
  have hkeyword : d.head.keyword.countP isWhite = 0 := List.countP_eq_zero.2 fun c hc => by
    rw [isWhite_of_continuesName ((Script.of_mem_declarators d.keyword_mem).1 c hc)]
    exact Bool.false_ne_true
  have hname : d.head.name.countP isWhite = 0 := List.countP_eq_zero.2 fun c hc => by
    rw [isWhite_of_continuesName (Script.continuesName_of_mem d.isName hc)]
    exact Bool.false_ne_true
  have hspace : isWhite ' ' = true := by decide
  rw [front, List.countP_append, List.countP_cons_of_pos hspace, List.countP_append, hkeyword, hname,
    List.countP_cons_of_pos hspace, List.countP_nil]

/-- The word in front of the first space is shorter than the first word of a default export. -/
lemma TypedDeclaration.length_keyword_lt (d : TypedDeclaration) :
    d.head.keyword.length < "export".toList.length := by
  have hmem := d.keyword_mem
  revert hmem
  generalize d.head.keyword = keyword
  revert keyword
  decide

/-- **What is left of a declaration holds no default export**: it has two spaces, and the word in
front of the first one is too short.

**Proof sketch.** A default export has white space twice, and what is left of a declaration has two
spaces, which must be these. Then `export` ends in front of the first space and is part of the
keyword, which is shorter. -/
theorem TypedDeclaration.not_holdsExport_front (d : TypedDeclaration) : ¬ HoldsExport d.front := by
  rintro ⟨_, ⟨white, space, hne, hne', hwhite, hspace, rfl⟩, before, behind, heq⟩
  -- both spaces belong to the default export
  have hbefore : before.countP isWhite = 0 := by
    have hcount := d.countP_front
    have hfirst := List.length_pos_of_ne_nil hne
    have hsecond := List.length_pos_of_ne_nil hne'
    simp only [← heq, List.countP_append, List.countP_eq_length.2 hwhite,
      List.countP_eq_length.2 hspace] at hcount
    omega
  have hplain : ' ' ∉ before ++ "export".toList := by
    intro hmem
    rcases List.mem_append.1 hmem with hmem | hmem
    · exact List.countP_eq_zero.1 hbefore ' ' hmem (by decide)
    · exact absurd hmem (by decide)
  have hword : before ++ "export".toList <+: d.head.keyword := by
    have hfront : before ++ "export".toList <+: d.front := by
      rw [← heq]
      exact ⟨white ++ ("default".toList ++ space) ++ behind, by simp only [List.append_assoc]⟩
    exact prefix_of_prefix_append_cons hplain hfront
  have hlength := hword.length_le
  rw [List.length_append] at hlength
  exact Nat.not_lt.2 (Nat.le_trans (Nat.le_add_left _ _) hlength) d.length_keyword_lt

end Source

namespace Script

open CardTable.Source (IsDefaultExport HoldsExport TypedDeclaration typedDeclaration? dropTypesFrom)

section Stretches

variable {previous : Option Char} {gs : List Glyph}

/-- A stretch is a piece of the text. -/
lemma infix_of_mem_typedStretches {s : List Glyph} (h : s ∈ typedStretches previous gs) :
    s <:+: gs := by
  fun_induction typedStretches previous gs with
  | case1 => cases h
  | case2 previous g rest head behind hfound n ih =>
    rcases List.mem_cons.1 h with rfl | h
    · exact (List.take_prefix ..).isInfix
    · exact (ih h).trans (List.drop_suffix ..).isInfix
  | case3 previous g rest hnone ih => exact (ih h).trans (List.suffix_cons ..).isInfix

/-- A piece of the second part of a located text is none of the first part. -/
lemma IsLocated.not_infix_left {hs es : List Glyph} (h : IsLocated (gs ++ hs)) (hne : es ≠ [])
    (hes : es <:+: hs) : ¬ es <:+: gs := by
  intro hleft
  obtain ⟨g, hg⟩ := List.exists_mem_of_ne_nil es hne
  exact Nat.lt_irrefl _ (h.lt (hleft.mem hg) (hes.mem hg))

/-- A text in front is that of located characters. -/
lemma exists_prefix_of_chars {es : List Char} (h : es <+: chars gs) :
    ∃ es', chars es' = es ∧ es' <+: gs := by
  refine ⟨gs.take es.length, ?_, List.take_prefix ..⟩
  rw [chars, List.map_take]
  exact (List.prefix_iff_eq_take.1 h).symm

/-- **Where no declaration begins** a default export is left just if it stands in no later stretch.

**Proof sketch.** A default export that is left begins here or later. If it begins here it stood
here before, and since its first character is in no later stretch it stands in none. If it begins
later the hypothesis on the rest applies. -/
theorem holdsExport_cons {g : Glyph} {rest : List Glyph}
    (hnone : typedDeclaration? previous (chars (g :: rest)) = none) (hgs : IsLocated (g :: rest))
    (ih : HoldsExport (dropTypesFrom (some g.char) (chars rest)) ↔
      ∃ es, IsDefaultExport (chars es) ∧ es <:+: rest ∧
        ∀ s ∈ typedStretches (some g.char) rest, ¬ es <:+: s) :
    HoldsExport (dropTypesFrom previous (chars (g :: rest))) ↔
      ∃ es, IsDefaultExport (chars es) ∧ es <:+: g :: rest ∧
        ∀ s ∈ typedStretches (some g.char) rest, ¬ es <:+: s := by
  have hdrop : dropTypesFrom previous (chars (g :: rest)) =
      g.char :: dropTypesFrom (some g.char) (chars rest) := Source.dropTypesFrom_of_none hnone
  constructor
  · rintro ⟨es, hes, hinfix⟩
    rw [hdrop, List.infix_cons_iff, ← hdrop] at hinfix
    rcases hinfix with hprefix | hlater
    · rw [Source.prefix_dropTypesFrom_iff hes.beginsNone] at hprefix
      obtain ⟨es', rfl, hfront⟩ := exists_prefix_of_chars hprefix
      refine ⟨es', hes, hfront.isInfix, fun s hs hinside => ?_⟩
      -- the first character stands in no later stretch
      obtain ⟨g', es', rfl⟩ := List.exists_cons_of_ne_nil (l := es') (by
        rintro rfl
        exact hes.ne_nil rfl)
      obtain ⟨rfl, -⟩ := List.cons_prefix_cons.1 hfront
      have hmem := (hinside.trans (infix_of_mem_typedStretches hs)).mem (List.mem_cons_self ..)
      exact Nat.lt_irrefl _ (hgs.head_lt hmem)
    · obtain ⟨es', hes', hrest, hstretches⟩ := ih.1 ⟨es, hes, hlater⟩
      exact ⟨es', hes', hrest.trans (List.suffix_cons ..).isInfix, hstretches⟩
  · rintro ⟨es, hes, hinfix, hstretches⟩
    rcases List.infix_cons_iff.1 hinfix with hprefix | hlater
    · refine ⟨chars es, hes, List.IsPrefix.isInfix ?_⟩
      rw [Source.prefix_dropTypesFrom_iff hes.beginsNone]
      exact hprefix.map Glyph.char
    · obtain ⟨es', hes', hinfix'⟩ := ih.2 ⟨es, hes, hlater, hstretches⟩
      refine ⟨es', hes', ?_⟩
      rw [hdrop]
      exact hinfix'.trans (List.suffix_cons ..).isInfix

/-- **At a declaration** a default export is left just if it stands behind it and in no later
stretch.

**Proof sketch.** No default export has an equals sign in it, so that one is in front of the sign
that is left or behind it. In front of it there is none (`not_holdsExport_front`); in the text, one
in front of the equals sign of the declaration is inside its stretch. -/
theorem holdsExport_declaration {s left : List Glyph} {d : TypedDeclaration} {cs : List Char}
    {stretches : List (List Glyph)} (hs : chars s = d.text) (hgs : IsLocated (s ++ left))
    (ih : HoldsExport cs ↔ ∃ es, IsDefaultExport (chars es) ∧ es <:+: left ∧
      ∀ s ∈ stretches, ¬ es <:+: s) :
    HoldsExport (d.front ++ '=' :: cs) ↔ ∃ es, IsDefaultExport (chars es) ∧ es <:+: s ++ left ∧
      ∀ s' ∈ s :: stretches, ¬ es <:+: s' := by
  constructor
  · rintro ⟨es, hes, hinfix⟩
    rcases (infix_append_cons_iff hes.equals_not_mem).1 hinfix with hfront | hlater
    · exact absurd ⟨es, hes, hfront⟩ d.not_holdsExport_front
    · obtain ⟨es', hes', hleft, hstretches⟩ := ih.1 ⟨es, hes, hlater⟩
      have hne : es' ≠ [] := by
        rintro rfl
        exact hes'.ne_nil rfl
      exact ⟨es', hes', hleft.trans (List.suffix_append ..).isInfix,
        List.forall_mem_cons.2 ⟨hgs.not_infix_left hne hleft, hstretches⟩⟩
  · rintro ⟨es, hes, hinfix, hstretches⟩
    obtain ⟨hinside, hlater⟩ := List.forall_mem_cons.1 hstretches
    -- the stretch ends with an equals sign, which stands in no default export
    obtain ⟨s, last, rfl, -, hlast⟩ := List.map_eq_append_iff.1
      (show s.map Glyph.char = (d.head.keyword ++ (d.nameText ++ d.type)) ++ ['='] by
        rw [← chars, hs, TypedDeclaration.text]
        simp only [List.append_assoc])
    obtain ⟨g, rfl, hg⟩ := List.map_eq_singleton_iff.1 hlast
    have hnot : g ∉ es := fun hmem =>
      hes.equals_not_mem (hg ▸ List.mem_map_of_mem hmem)
    rw [List.append_assoc, List.singleton_append, infix_append_cons_iff hnot] at hinfix
    rcases hinfix with hfront | hleft
    · exact absurd (hfront.trans (List.prefix_append ..).isInfix) hinside
    · obtain ⟨es', hes', hinfix'⟩ := ih.2 ⟨es, hes, hleft, hlater⟩
      exact ⟨es', hes', hinfix'.trans ((List.suffix_cons ..).trans (List.suffix_append ..)).isInfix⟩

/-- **The default exports that are left** when types are dropped are those that stand in no stretch.

**Proof sketch.** Induction along the search for declarations, with one lemma for each of its steps:
at a declaration `holdsExport_declaration`, and elsewhere `holdsExport_cons`. -/
theorem holdsExport_dropTypesFrom_iff (hgs : IsLocated gs) :
    HoldsExport (dropTypesFrom previous (chars gs)) ↔
      ∃ es, IsDefaultExport (chars es) ∧ es <:+: gs ∧
        ∀ s ∈ typedStretches previous gs, ¬ es <:+: s := by
  fun_induction typedStretches previous gs with
  | case1 =>
    have hnone : ∀ {es : List Char}, IsDefaultExport es → ¬ es <:+: [] := fun hes h =>
      hes.ne_nil (List.infix_nil.1 h)
    rw [chars, List.map_nil, dropTypesFrom]
    refine iff_of_false ?_ ?_
    · rintro ⟨es, hes, h⟩
      exact hnone hes h
    · rintro ⟨es, hes, h, -⟩
      exact hnone hes (h.map Glyph.char)
  | case2 previous g rest head behind hfound n ih =>
    obtain ⟨d, rfl, htake, hdrop⟩ := exists_stretch_of_typedDeclaration? hfound
    have hsplit : IsLocated ((g :: rest).take n ++ (g :: rest).drop n) := by
      rwa [List.take_append_drop]
    have hdeclaration := holdsExport_declaration htake hsplit (ih hsplit.right)
    have hbare : dropTypesFrom previous (chars (g :: rest)) =
        d.front ++ '=' :: dropTypesFrom (some '=') (chars ((g :: rest).drop n)) := by
      rw [Source.dropTypesFrom_of_some hfound, hdrop]
      simp [TypedDeclaration.front]
    rw [List.take_append_drop] at hdeclaration
    rw [hbare]
    exact hdeclaration
  | case3 previous g rest hnone ih => exact holdsExport_cons hnone hgs (ih hgs.tail)

end Stretches

/-! ## Sources without a default export -/

open CardTable.Source (ImportLine Import Module SourceError cutImports exportDefault?)

/-- All imports are read just if each line is. -/
lemma exists_mapM_ofLine_iff {lines : List ImportLine} :
    (∃ imports, lines.mapM Import.ofLine = .ok imports) ↔
      ∀ line ∈ lines, ∃ i, Import.ofLine line = .ok i := by
  induction lines with
  | nil => exact iff_of_true ⟨[], rfl⟩ (List.forall_mem_nil _)
  | cons line lines ih =>
    rw [List.forall_mem_cons, ← ih, List.mapM_cons]
    simp only [bind_eq_ok_iff]
    constructor
    · rintro ⟨_, i, hi, imports, himports, -⟩
      exact ⟨⟨i, hi⟩, imports, himports⟩
    · rintro ⟨⟨i, hi⟩, imports, himports⟩
      exact ⟨i :: imports, i, hi, imports, himports, rfl⟩

/-- **The sources that are refused for want of a default export** are those of which the import
specifiers can be read and all default exports, once the import lines are cut out, stand in
stretches that are found to be typed declarations.

**Proof sketch.** Import lines are cut out first and read, so that a source with a bad specifier is
refused for this. Of the rest the default export is looked for in what is left without types, where
there is one exactly if it stood in no stretch (`holdsExport_dropTypesFrom_iff`). -/
theorem ofSource_missingExport_iff (source : String) :
    Module.ofSource source = .error .missingExport ↔
      (∀ line ∈ (cutImports true source.toList).1, ∃ i, Import.ofLine line = .ok i) ∧
        ∀ es, es <:+: locate 0 (cutImports true source.toList).2 → IsDefaultExport (chars es) →
          ∃ s ∈ typedStretches none (locate 0 (cutImports true source.toList).2), es <:+: s := by
  rw [← exists_mapM_ofLine_iff]
  rcases hcut : cutImports true source.toList with ⟨lines, text⟩
  have hexport : exportDefault? (dropTypesFrom none text) = none ↔
      ∀ es, es <:+: locate 0 text → IsDefaultExport (chars es) →
        ∃ s ∈ typedStretches none (locate 0 text), es <:+: s := by
    have hleft := @holdsExport_dropTypesFrom_iff none _ (isLocated_locate 0 text)
    rw [chars_locate] at hleft
    rw [Source.exportDefault?_eq_none_iff, hleft]
    push Not
    exact ⟨fun h es hes hexport => h es hexport hes, fun h es hexport hes => h es hes hexport⟩
  rw [← hexport, Module.ofSource, hcut]
  dsimp only
  cases hlines : lines.mapM Import.ofLine with
  | error e =>
    refine iff_of_false (fun h => ?_) (fun ⟨⟨_, h⟩, _⟩ => nomatch h)
    have hspecifier : Except.error (.specifier e) =
        (.error .missingExport : Except SourceError Module) := h
    cases hspecifier
  | ok imports =>
    rw [and_iff_right ⟨imports, rfl⟩]
    cases hfound : exportDefault? (dropTypesFrom none text) with
    | none => exact iff_of_true rfl rfl
    | some body => exact iff_of_false (fun h => nomatch h) (fun h => nomatch h)

/-- A declaration without a first value takes the default export behind it along, up to the equals
sign of the next statement. -/
theorem ofSource_export_behind_declaration :
    let text := "let a: A\nexport default a\nconst b = 1".toList
    let es := ((locate 0 text).drop 9).take 15
    Module.ofSource (String.ofList text) = .error .missingExport ∧ es <:+: locate 0 text ∧
      IsDefaultExport (chars es) ∧ ∃ s ∈ typedStretches none (locate 0 text), es <:+: s := by
  intro text es
  have hfail : Module.ofSource (String.ofList text) = .error .missingExport := by decide +kernel
  have hcut : (cutImports true (String.ofList text).toList).2 = text := by decide +kernel
  have hinfix : es <:+: locate 0 text :=
    (List.take_prefix ..).isInfix.trans (List.drop_suffix ..).isInfix
  have hexport : IsDefaultExport (chars es) :=
    ⟨[' '], [' '], by decide, by decide, by decide, by decide, by decide⟩
  have hstretches := (ofSource_missingExport_iff _).1 hfail
  rw [hcut] at hstretches
  exact ⟨hfail, hinfix, hexport, hstretches.2 es hinfix hexport⟩

end Script

end CardTable
