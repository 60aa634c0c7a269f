import CardTable.Proofs.Script.TokensWithoutTypes
import CardTable.Proofs.Modules.PlainModules
import Mathlib.Data.List.Zip

set_option autoImplicit false

/-!
# Comments in front of a module

A block comment in front of a module source is read twice: as a text, in which import lines, typed
declarations and a default export are found by their looks, and as a comment of the body. If nothing
is found in it that goes into the module, then the module is the same one but for the comment, and
the lexer skips that.

## Main definitions

* `CardTable.Source.IsInert` — nothing in a comment goes into the module behind it.

## Main results

* `CardTable.Source.Module.ofSource_behind_comment` — the module behind an inert comment.
* `CardTable.Script.evaluate_behind_comment` — a body has the same value behind a comment.
* `CardTable.Script.evaluate_ofSource_behind_comment` — a module has the same imports and the same
  value behind an inert comment.
-/

namespace CardTable.Source

open CardTable.Text (isWhite isWord)

/-- The text `cs` behind the end of a block comment and a line feed. -/
def behindComment (cs : List Char) : List Char :=
  '*' :: '/' :: '\n' :: cs

/-- Nothing in the comment with the content `c` goes into the module of the source `s` behind it. -/
structure IsInert (c s : List Char) : Prop where
  /-- No import line begins in the comment. -/
  importLine : ∀ b, '\n' :: b <:+ c → importLine? (b ++ behindComment s) = none
  /-- A typed declaration that begins in the comment ends in it, once the import lines are cut
  out. -/
  typedDeclaration : ∀ a b, a ++ b = c → ∀ head behind,
    typedDeclaration? a.getLast? (b ++ behindComment (cutImports true s).2) = some (head, behind) →
      behindComment (cutImports true s).2 <:+ behind
  /-- Without its types the comment holds no default export. -/
  exportDefault : exportDefault? (dropTypesFrom none c) = none

/-! ## Finds in front of a star -/

section Star

variable {p : Char → Bool} {word cs stop : List Char}

/-- A star ends every stretch of characters other than stars. -/
lemma span_star (hp : p '*' = false) (cs : List Char) :
    (cs ++ '*' :: stop).takeWhile p = cs.takeWhile p ∧
      (cs ++ '*' :: stop).dropWhile p = cs.dropWhile p ++ '*' :: stop := by
  induction cs with
  | nil => simp [hp]
  | cons c cs ih =>
    simp only [List.cons_append, List.takeWhile_cons, List.dropWhile_cons]
    split
    · exact ⟨congrArg (c :: ·) ih.1, ih.2⟩
    · exact ⟨rfl, rfl⟩

/-- A word without a star does not reach over one. -/
lemma dropWord?_star (hword : '*' ∉ word) (cs : List Char) :
    dropWord? word (cs ++ '*' :: stop) = (dropWord? word cs).map (· ++ '*' :: stop) := by
  have hprefix : word <+: cs ++ '*' :: stop ↔ word <+: cs := by
    refine ⟨fun ⟨left, h⟩ => ?_, fun h => h.trans (List.prefix_append ..)⟩
    rcases List.append_eq_append_iff.1 h with ⟨more, rfl, -⟩ | ⟨beyond, hbeyond, hstar⟩
    · exact List.prefix_append ..
    · cases beyond with
      | nil => exact ⟨[], by rw [hbeyond, List.append_nil, List.append_nil]⟩
      | cons d beyond =>
        obtain ⟨rfl, -⟩ := List.cons.inj hstar
        exact absurd (hbeyond ▸ List.mem_append_right _ (List.mem_cons_self ..)) hword
  simp only [dropWord?, List.isPrefixOf_iff_prefix, hprefix]
  split
  · next h => rw [List.drop_append_of_le_length h.length_le]; rfl
  · rfl

/-- A star is no white space. -/
lemma dropWhite?_star (cs : List Char) :
    dropWhite? (cs ++ '*' :: stop) = (dropWhite? cs).map (· ++ '*' :: stop) := by
  have hstar : isWhite '*' = false := by decide +kernel
  cases cs with
  | nil => simp [dropWhite?, hstar]
  | cons c cs =>
    simp only [List.cons_append, dropWhite?, (span_star hstar cs).2]
    split <;> rfl

/-- A default export does not reach over a star. -/
lemma behindExport?_star (cs : List Char) :
    behindExport? (cs ++ '*' :: stop) = (behindExport? cs).map (· ++ '*' :: stop) := by
  simp only [behindExport?, dropWord?_star (show '*' ∉ "export".toList by decide), Option.bind_eq_bind]
  cases dropWord? "export".toList cs with
  | none => rfl
  | some cs =>
    simp only [Option.map_some, Option.bind_some, dropWhite?_star]
    cases dropWhite? cs with
    | none => rfl
    | some cs =>
      simp only [Option.map_some, Option.bind_some,
        dropWord?_star (show '*' ∉ "default".toList by decide)]
      cases dropWord? "default".toList cs with
      | none => rfl
      | some cs => exact dropWhite?_star cs

/-- A declarator does not reach over a star. -/
lemma declarator?_star (cs : List Char) : declarator? (cs ++ '*' :: stop) =
    (declarator? cs).map fun (word, behind) => (word, behind ++ '*' :: stop) := by
  simp only [declarator?, declarators, List.findSome?_cons, List.findSome?_nil,
    dropWord?_star (show '*' ∉ "const".toList by decide),
    dropWord?_star (show '*' ∉ "let".toList by decide),
    dropWord?_star (show '*' ∉ "var".toList by decide)]
  cases dropWord? "const".toList cs <;> cases dropWord? "let".toList cs <;>
    cases dropWord? "var".toList cs <;> rfl

/-- A type that ends in front of a star does not reach over it. -/
lemma behindType?_star
    (hends : ∀ behind, behindType? (cs ++ '*' :: stop) = some behind → '*' :: stop <:+ behind) :
    behindType? (cs ++ '*' :: stop) = (behindType? cs).map (· ++ '*' :: stop) := by
  cases hfound : behindType? (cs ++ '*' :: stop) with
  | none =>
    cases halone : behindType? cs with
    | none => rfl
    | some behind =>
      obtain ⟨type, hne, hequals, rfl⟩ := behindType?_eq_some_iff.1 halone
      have hboth : behindType? (':' :: (type ++ '=' :: behind) ++ '*' :: stop) =
          some (behind ++ '*' :: stop) :=
        behindType?_eq_some_iff.2 ⟨type, hne, hequals, by simp⟩
      cases hfound.symm.trans hboth
  | some behind =>
    obtain ⟨front, rfl⟩ := hends _ hfound
    obtain ⟨type, hne, hequals, hcs⟩ := behindType?_eq_some_iff.1 hfound
    have hboth : cs ++ '*' :: stop = (':' :: (type ++ '=' :: front)) ++ '*' :: stop := by
      simpa using hcs
    rw [behindType?_eq_some_iff.2 ⟨type, hne, hequals, List.append_cancel_right hboth⟩]
    rfl

/-- A typed declaration that ends in front of a star does not reach over it. -/
lemma typedDeclaration?_star {previous : Option Char}
    (hends : ∀ head behind, typedDeclaration? previous (cs ++ '*' :: stop) = some (head, behind) →
      '*' :: stop <:+ behind) :
    typedDeclaration? previous (cs ++ '*' :: stop) =
      (typedDeclaration? previous cs).map fun (head, behind) => (head, behind ++ '*' :: stop) := by
  have hname : continuesName '*' = false := by decide
  have hwhite : isWhite '*' = false := by decide +kernel
  unfold typedDeclaration? at hends ⊢
  by_cases hword : previous.any isWord = true
  · simp only [if_pos hword, Option.map_none]
  simp only [if_neg hword, declarator?_star, Option.bind_eq_bind] at hends ⊢
  cases hkeyword : declarator? cs with
  | none => rfl
  | some found =>
    simp only [hkeyword, Option.map_some, Option.bind_some, dropWhite?_star] at hends ⊢
    cases hbehind : dropWhite? found.2 with
    | none => rfl
    | some cs =>
      simp only [hbehind, Option.map_some, Option.bind_some, (span_star hname cs).1,
        (span_star hname cs).2, (span_star hwhite _).2] at hends ⊢
      by_cases hisName : isName (cs.takeWhile continuesName) = true
      · simp only [if_pos hisName] at hends ⊢
        rw [behindType?_star fun behind hbehind => hends _ behind (by rw [hbehind]; rfl)]
        cases behindType? ((cs.dropWhile continuesName).dropWhile isWhite) <;> rfl
      · simp only [if_neg hisName, Option.map_none]

end Star

/-! ## A source text behind a comment -/

section Comment

variable {c s : List Char}

/-- Outside of words nothing tells the characters in front of a declaration apart. -/
lemma dropTypesFrom_of_not_isWord {previous : Char} (hprevious : isWord previous = false)
    (cs : List Char) : dropTypesFrom (some previous) cs = dropTypesFrom none cs := by
  have hsame : typedDeclaration? (some previous) cs = typedDeclaration? none cs := by
    simp [typedDeclaration?, hprevious]
  cases cs with
  | nil => rw [dropTypesFrom, dropTypesFrom]
  | cons c cs =>
    cases hfound : typedDeclaration? none (c :: cs) with
    | none => rw [dropTypesFrom_of_none hfound, dropTypesFrom_of_none (hsame.trans hfound)]
    | some found => rw [dropTypesFrom_of_some hfound, dropTypesFrom_of_some (hsame.trans hfound)]

/-- Import lines that do not begin in a text are cut out behind it. -/
lemma cutImports_of_none {atStart : Bool} {c : Char} {cs : List Char}
    (h : lineAt? atStart (c :: cs) = none) : cutImports atStart (c :: cs) =
      ((cutImports (c == '\n') cs).1, c :: (cutImports (c == '\n') cs).2) := by
  rw [cutImports]
  split
  · next hsome => cases h.symm.trans hsome
  · rfl

/-- No import line begins with another character than a blank or the first letter of `import`. -/
lemma lineAt?_of_ne {c : Char} (hblank : isBlank c = false) (hc : c ≠ 'i') (atStart : Bool)
    (cs : List Char) : lineAt? atStart (c :: cs) = none := by
  have hword : dropWord? "import".toList (c :: cs) = none := by
    simp [dropWord?, List.isPrefixOf, Ne.symm hc]
  simp only [lineAt?, importLine?, List.dropWhile_cons, hblank, Bool.false_eq_true, if_false, hword]
  exact ite_self none

/-- The end of a comment goes on with the import lines behind it. -/
lemma cutImports_behindComment (atStart : Bool) (s : List Char) :
    cutImports atStart (behindComment s) =
      ((cutImports true s).1, behindComment (cutImports true s).2) := by
  have hplain : ∀ c ∈ ['*', '/', '\n'], ∀ atStart cs, lineAt? atStart (c :: cs) = none := by
    intro c hc
    refine lineAt?_of_ne ?_ ?_ <;> revert hc c <;> decide
  rw [behindComment, cutImports_of_none (hplain _ (by decide) _ _),
    cutImports_of_none (hplain _ (by decide) _ _), cutImports_of_none (hplain _ (by decide) _ _)]
  rfl

/-- **No import line is cut out of a comment** if none begins there. -/
theorem cutImports_comment (atStart : Bool)
    (hstart : atStart = true → importLine? (c ++ behindComment s) = none)
    (hline : ∀ b, '\n' :: b <:+ c → importLine? (b ++ behindComment s) = none) :
    cutImports atStart (c ++ behindComment s) =
      ((cutImports true s).1, c ++ behindComment (cutImports true s).2) := by
  induction c generalizing atStart with
  | nil => exact cutImports_behindComment atStart s
  | cons d c ih =>
    have hnone : lineAt? atStart (d :: (c ++ behindComment s)) = none := by
      unfold lineAt?
      split
      · next h => exact hstart h
      · rfl
    rw [List.cons_append, cutImports_of_none hnone, ih]
    · rfl
    · intro hbreak
      obtain rfl := beq_iff_eq.1 hbreak
      exact hline c List.suffix_rfl
    · exact fun b hb => hline b (hb.trans (List.suffix_cons ..))

/-- No typed declaration begins with another character than the first letters of the declarators. -/
lemma typedDeclaration?_of_not_mem {c : Char} (hc : c ∉ ['c', 'l', 'v']) (previous : Option Char)
    (cs : List Char) : typedDeclaration? previous (c :: cs) = none := by
  simp only [List.mem_cons, List.not_mem_nil, or_false, not_or] at hc
  have hword : declarator? (c :: cs) = none := by
    simp [declarator?, declarators, dropWord?, Ne.symm hc.1, Ne.symm hc.2.1, Ne.symm hc.2.2]
  rw [typedDeclaration?, hword]
  exact ite_self none

/-- The end of a comment goes on with the declarations behind it. -/
lemma dropTypesFrom_behindComment (previous : Option Char) (s : List Char) :
    dropTypesFrom previous (behindComment s) = behindComment (dropTypesFrom none s) := by
  rw [behindComment, dropTypesFrom_of_none (typedDeclaration?_of_not_mem (by decide) _ _),
    dropTypesFrom_of_none (typedDeclaration?_of_not_mem (by decide) _ _),
    dropTypesFrom_of_none (typedDeclaration?_of_not_mem (by decide) _ _),
    dropTypesFrom_of_not_isWord (by decide +kernel)]
  rfl

/-- **Types are dropped in a comment and behind it** if no declaration reaches over its end. -/
theorem dropTypesFrom_comment (previous : Option Char)
    (hends : ∀ a b, a ++ b = c → ∀ head behind,
      typedDeclaration? (a.getLast?.or previous) (b ++ behindComment s) = some (head, behind) →
        behindComment s <:+ behind) :
    dropTypesFrom previous (c ++ behindComment s) =
      dropTypesFrom previous c ++ behindComment (dropTypesFrom none s) := by
  fun_induction dropTypesFrom previous c with
  | case1 previous => exact dropTypesFrom_behindComment previous s
  | case2 previous d rest head behind hfound ih =>
    have hboth : typedDeclaration? previous (d :: (rest ++ behindComment s)) =
        some (head, behind ++ behindComment s) :=
      (typedDeclaration?_star (hends [] _ rfl)).trans (by
        rw [List.getLast?_nil, Option.none_or, hfound]
        rfl)
    rw [List.cons_append, dropTypesFrom_of_some hboth, ih]
    · simp
    -- behind the declaration stands its equals sign
    intro a b hab head' behind' hfound'
    obtain ⟨found, -, hrest⟩ := exists_of_typedDeclaration? hfound
    refine hends (found.text ++ a) b (by rw [List.append_assoc, hab, hrest]) head' behind' ?_
    have hlast : found.text.getLast? = some '=' := by
      rw [TypedDeclaration.text, ← List.append_assoc, ← List.append_assoc, List.getLast?_concat]
    rwa [List.getLast?_append, hlast, Option.or_assoc]
  | case3 previous d rest hnone ih =>
    have hboth : typedDeclaration? previous (d :: (rest ++ behindComment s)) = none :=
      (typedDeclaration?_star (hends [] _ rfl)).trans (by
        rw [List.getLast?_nil, Option.none_or, hnone]
        rfl)
    rw [List.cons_append, dropTypesFrom_of_none hboth, ih, List.cons_append]
    intro a b hab head behind hfound
    refine hends (d :: a) b (by rw [List.cons_append, hab]) head behind ?_
    rwa [← List.singleton_append, List.getLast?_append, List.getLast?_singleton, Option.or_assoc]

/-- Where no default export begins the text goes on. -/
lemma exportDefault?_of_none {c : Char} {cs : List Char} (h : behindExport? (c :: cs) = none) :
    exportDefault? (c :: cs) = (exportDefault? cs).map (c :: ·) := by
  rw [exportDefault?, h]

/-- No default export begins with another character than its first letter. -/
lemma behindExport?_of_ne {c : Char} (hc : c ≠ 'e') (cs : List Char) :
    behindExport? (c :: cs) = none := by
  have hword : dropWord? "export".toList (c :: cs) = none := by
    simp [dropWord?, Ne.symm hc]
  rw [behindExport?, hword]
  rfl

/-- **The default export behind a comment** is the first one if there is none in the comment. -/
theorem exportDefault?_comment (h : exportDefault? c = none) :
    exportDefault? (c ++ behindComment s) =
      (exportDefault? s).map fun body => c ++ behindComment body := by
  induction c with
  | nil =>
    rw [List.nil_append, behindComment, exportDefault?_of_none (behindExport?_of_ne (by decide) _),
      exportDefault?_of_none (behindExport?_of_ne (by decide) _),
      exportDefault?_of_none (behindExport?_of_ne (by decide) _)]
    cases exportDefault? s <;> rfl
  | cons d c ih =>
    cases hfirst : behindExport? (d :: c) with
    | some behind =>
      rw [exportDefault?, hfirst] at h
      cases h
    | none =>
      rw [exportDefault?_of_none hfirst, Option.map_eq_none_iff] at h
      have hboth : behindExport? (d :: (c ++ behindComment s)) = none :=
        (behindExport?_star (d :: c)).trans (by rw [hfirst]; rfl)
      rw [List.cons_append, exportDefault?_of_none hboth, ih h]
      cases exportDefault? s <;> rfl

end Comment

/-- **The module behind an inert comment** is the same one with the comment in front of its body,
or is refused for the same reason. -/
theorem Module.ofSource_behind_comment {c s : String} (h : IsInert c.toList s.toList) :
    Module.ofSource ("/*" ++ c ++ "*/\n" ++ s) =
      (Module.ofSource s).map fun m => ⟨m.imports, "/*" ++ dropTypes c ++ "*/\n" ++ m.body⟩ := by
  have htext : ("/*" ++ c ++ "*/\n" ++ s).toList =
      '/' :: '*' :: (c.toList ++ behindComment s.toList) := by
    simp [behindComment]
  -- the two characters that open the comment are kept by every step
  have hcut : cutImports true ('/' :: '*' :: (c.toList ++ behindComment s.toList)) =
      ((cutImports true s.toList).1,
        '/' :: '*' :: (c.toList ++ behindComment (cutImports true s.toList).2)) := by
    rw [cutImports_of_none (lineAt?_of_ne (by decide) (by decide) _ _),
      cutImports_of_none (lineAt?_of_ne (by decide) (by decide) _ _),
      cutImports_comment _ (fun hstart => absurd hstart (by decide)) h.importLine]
  have hdrop : dropTypesFrom none
        ('/' :: '*' :: (c.toList ++ behindComment (cutImports true s.toList).2)) =
      '/' :: '*' :: (dropTypesFrom none c.toList ++
        behindComment (dropTypesFrom none (cutImports true s.toList).2)) := by
    rw [dropTypesFrom_of_none (typedDeclaration?_of_not_mem (by decide) _ _),
      dropTypesFrom_of_none (typedDeclaration?_of_not_mem (by decide) _ _),
      dropTypesFrom_of_not_isWord (by decide +kernel), dropTypesFrom_comment none fun a b hab => by
        rw [Option.or_none]
        exact h.typedDeclaration a b hab]
  rw [Module.ofSource, Module.ofSource, htext, hcut]
  dsimp only
  rw [hdrop, exportDefault?_of_none (behindExport?_of_ne (by decide) _),
    exportDefault?_of_none (behindExport?_of_ne (by decide) _), exportDefault?_comment h.exportDefault]
  cases (((cutImports true s.toList).1.mapM Import.ofLine).mapError SourceError.specifier) with
  | error e => rfl
  | ok imports =>
    cases exportDefault? (dropTypesFrom none (cutImports true s.toList).2) with
    | none => rfl
    | some body =>
      have hbody :
          String.ofList ('/' :: '*' :: (dropTypesFrom none c.toList ++ behindComment body)) =
          "/*" ++ dropTypes c ++ "*/\n" ++ String.ofList body := by
        simp [← String.toList_inj, dropTypes, behindComment]
      exact congrArg (fun text => Except.ok (Module.mk imports text)) hbody

end CardTable.Source

namespace CardTable.Script

open CardTable.Source (dropTypesFrom)

/-! ## The comment as one of the body -/

section Drops

variable {ok : List Glyph → Prop} {gs : List Glyph} {cs : List Char}

/-- What ends a comment begins with a star. -/
lemma isInfix_of_append {front : List Char} (hfront : '*' ∉ front)
    (h : ['*', '/'] <:+: front ++ cs) : ['*', '/'] <:+: cs := by
  induction front with
  | nil => exact h
  | cons c front ih =>
    rw [List.mem_cons, not_or] at hfront
    rcases List.infix_cons_iff.1 h with ⟨rest, hrest⟩ | hrest
    · exact absurd (List.cons.inj hrest).1 hfront.1
    · exact ih hfront.2 hrest

/-- A comment ends no earlier without its types. -/
lemma Drops.not_isInfix (h : Drops ok gs cs) (hgs : ¬ ['*', '/'] <:+: chars gs) :
    ¬ ['*', '/'] <:+: cs := by
  induction h with
  | nil => exact hgs
  | @keep gs cs g h ih =>
    rw [List.infix_cons_iff]
    rintro (⟨rest, hfirst⟩ | hrest)
    · obtain ⟨hstar, rfl⟩ := List.cons.inj hfirst
      have hslash : (chars gs).take 1 = ['/'] := (h.take_eq 1 (by decide)).symm
      refine hgs (List.IsPrefix.isInfix ⟨(chars gs).drop 1, ?_⟩)
      have hchars : chars (g :: gs) = '*' :: ((chars gs).take 1 ++ (chars gs).drop 1) := by
        rw [List.take_append_drop, hstar, chars, List.map_cons, chars]
      rw [hchars, hslash]
      rfl
    · exact ih (fun hwithin => hgs (hwithin.trans (List.suffix_cons ..).isInfix)) hrest
  | @declaration s gs cs d hs hok h ih =>
    intro hwithin
    have hchars : chars (s ++ gs) = chars s ++ chars gs := List.map_append ..
    refine ih (fun hgs' => hgs ?_) (isInfix_of_append (fun h => (of_mem_bare h).2 rfl) hwithin)
    exact hchars ▸ hgs'.trans (List.suffix_append ..).isInfix

end Drops

/-- A comment ends no earlier without the types of the declarations in it. -/
lemma not_isInfix_dropTypesFrom {c : List Char} (h : ¬ ['*', '/'] <:+: c) :
    ¬ ['*', '/'] <:+: dropTypesFrom none c := by
  have hdrops : Drops (fun _ => True) (locate 0 c) (dropTypesFrom none (chars (locate 0 c))) :=
    drops_dropTypesFrom fun _ _ => trivial
  rw [chars_locate] at hdrops
  exact hdrops.not_isInfix (by rwa [chars_locate])

/-- A block comment reaches to its first end. -/
lemma exists_blockComment? {c : List Glyph} (hc : ¬ ['*', '/'] <:+: chars c) {star slash : Glyph}
    (hstar : star.char = '*') (hslash : slash.char = '/') (gs : List Glyph) :
    ∃ broken, blockComment? (c ++ star :: slash :: gs) = some (broken, gs) := by
  induction c with
  | nil =>
    refine ⟨false, ?_⟩
    rw [List.nil_append, blockComment?_cons, if_pos ⟨hstar, by simp [hslash]⟩]
    rfl
  | cons g c ih =>
    obtain ⟨broken, hrest⟩ := ih fun h => hc (h.trans (List.suffix_cons ..).isInfix)
    have hopen : ¬ (g.char = '*' ∧ (c ++ star :: slash :: gs).head?.map Glyph.char = some '/') := by
      rintro ⟨hg, hnext⟩
      cases c with
      | nil => simp [hstar] at hnext
      | cons g' c =>
        have hg' : g'.char = '/' := by simpa using hnext
        exact hc ⟨[], chars c, by simp [chars, hg, hg']⟩
    exact ⟨_, by rw [List.cons_append, blockComment?_cons, if_neg hopen, hrest]; rfl⟩

/-! ## Line breaks in front of a body -/

/-- The line breaks in front of a text are seen at its first token alone. -/
lemma exists_lexemes_of_skipGap {gs gs' : List Glyph} {ts : List Lexeme}
    (hgap : ∀ broken left, skipGap gs = .ok (broken, left) →
      ∃ broken', skipGap gs' = .ok (broken', left))
    (hts : lexemes gs = .ok ts) : ∃ ts', lexemes gs' = .ok ts' ∧
      (ts' = ts ∨ ∃ t t' rest, ts = t :: rest ∧ ts' = t' :: rest ∧ t'.token = t.token) := by
  rcases lexemes_cases hts with
    ⟨_, hskip, rfl⟩ | ⟨_, g, rest, t, behind, more, hskip, htoken, hmore, rfl⟩
  · obtain ⟨_, hskip'⟩ := hgap _ _ hskip
    exact ⟨[], lexemes_of_end hskip', .inl rfl⟩
  · obtain ⟨broken', hskip'⟩ := hgap _ _ hskip
    refine ⟨⟨t, g.offset, broken', frontOf (g :: rest) behind⟩ :: more, ?_,
      .inr ⟨_, _, more, rfl, rfl, rfl⟩⟩
    rw [lexemes_of_token hskip' htoken, hmore]
    rfl

namespace Reader

section First

variable {fin : TextEnd} {inner : Substitution → Expr} {t t' : Lexeme} {rest us : List Lexeme}
  {e : Expr}

/-- Of the first token of an expression nothing counts but what it is. -/
lemma reads_of_first (ht : t'.token = t.token)
    (h : Reads inner .expression (t :: rest) (.expr e) us) :
    Reads inner .expression (t' :: rest) (.expr e) us := by
  have hprimary : ∀ {e us}, Reads inner .primary (t :: rest) (.expr e) us →
      Reads inner .primary (t' :: rest) (.expr e) us := by
    intro e us h
    cases h with
    | atom hatom => exact .atom (by rwa [ht])
    | name hname hconstant hsupported hcall =>
      exact .name (ht.trans hname) hconstant hsupported hcall
    | bracketed hopen hexpression hclose => exact .bracketed (ht.trans hopen) hexpression hclose
    | object hopen hentries => exact .object (ht.trans hopen) hentries
    | array hopen hitems => exact .array (ht.trans hopen) hitems
  cases h with
  | expression hunary hend =>
    refine .expression ?_ hend
    cases hunary with
    | signed negative hsign hunary => exact .signed negative (ht.trans hsign) hunary
    | plain hfirst hlinks => exact .plain (hprimary hfirst) hlinks

/-- Of the first token of an expression statement nothing counts but what it is. -/
lemma expressionStatement_of_first (ht : t'.token = t.token) :
    StatementsRefine (expressionStatement fin inner (t :: rest))
      (expressionStatement fin inner (t' :: rest)) := by
  have hsound := (areSound fin inner (t :: rest)).expression
  rw [expressionStatement, expressionStatement]
  cases hread : expression fin inner (t :: rest) with
  | cut e =>
    rw [hread] at hsound
    exact .of_fails (Expr.Fails.evaluate hsound _)
  | whole e us hshort =>
    rw [hread] at hsound
    obtain ⟨_, hwhole⟩ := (expression_isWhole_iff fin).2 (reads_of_first ht hsound)
    rw [hwhole]
    exact .refl _

/-- **Of the first token of a body nothing counts but what it is**, so that a line break in front of
it does not.

**Proof sketch.** By the kind of the token: the readers of statements look at what the token is, and
at whether a line break is in front of a token only behind others. -/
theorem statements_of_first (ht : t'.token = t.token) :
    StatementsRefine (statements fin inner (t :: rest)) (statements fin inner (t' :: rest)) := by
  by_cases hsemicolon : IsPunct ';' t
  · rw [statements_of_semicolon hsemicolon, statements_of_semicolon (ht.trans hsemicolon)]
    exact .refl _
  by_cases hword : ∃ w, t.token = .word w
  · obtain ⟨w, hw⟩ := hword
    rw [statements_of_word hw, statements_of_word (ht.trans hw)]
    split
    · exact .refl _
    split
    · exact .refl _
    split
    · exact .refl _
    split
    · exact .of_fails (statementsFail_cut _ _)
    · exact expressionStatement_of_first ht
  · rw [statements_of_not_word hsemicolon (not_exists.1 hword),
      statements_of_not_word (fun h => hsemicolon (ht.symm.trans h))
        fun w h => hword ⟨w, ht.symm.trans h⟩]
    exact expressionStatement_of_first ht

end First

end Reader

/-! ## The value behind a comment -/

/-- A comment with a line feed behind it is skipped in front of a text. -/
lemma exists_skipGap_comment {c : List Char} (body : List Char) (hc : ¬ ['*', '/'] <:+: c) :
    ∃ o, ∀ broken left, skipGap (locate o body) = .ok (broken, left) →
      ∃ broken', skipGap (locate 0 ('/' :: '*' :: (c ++ '*' :: '/' :: '\n' :: body))) =
        .ok (broken', left) := by
  have hinside : ¬ ['*', '/'] <:+: chars (locate 2 c) := by rwa [chars_locate]
  obtain ⟨inside, hblock⟩ := exists_blockComment? hinside
    (rfl : (⟨2 + Text.byteCount c, '*'⟩ : Glyph).char = '*')
    (rfl : (⟨2 + Text.byteCount c + 1, '/'⟩ : Glyph).char = '/')
    (⟨2 + Text.byteCount c + 2, '\n'⟩ :: locate (2 + Text.byteCount c + 3) body)
  refine ⟨2 + Text.byteCount c + 3, fun broken left hskip => ?_⟩
  have htext : locate 0 ('/' :: '*' :: (c ++ '*' :: '/' :: '\n' :: body)) =
      ⟨0, '/'⟩ :: ⟨1, '*'⟩ :: (locate 2 c ++ ⟨2 + Text.byteCount c, '*'⟩ ::
        ⟨2 + Text.byteCount c + 1, '/'⟩ :: ⟨2 + Text.byteCount c + 2, '\n'⟩ ::
          locate (2 + Text.byteCount c + 3) body) := by
    rw [locate_single _ rfl, locate_single _ rfl, locate_append_single _ _ rfl,
      locate_single _ rfl, locate_single _ rfl]
  have hbreak : isGap '\n' = true := by decide +kernel
  rw [htext, skipGap_of_block rfl rfl hblock, skipGap_of_isGap _ hbreak, hskip]
  exact ⟨_, rfl⟩

/-- A body has the value of another one if its statements have. -/
lemma evaluate_of_refines {bindings : List (String × Value)} {body body' : String} {v : Value}
    {ts ts' : List Lexeme} (hts : lexemes (locate 0 body.toList) = .ok ts)
    (hts' : lexemes (locate 0 body'.toList) = .ok ts')
    (hrefine : ∀ fin fin', StatementsRefine (Reader.statements fin substitutionExpr ts)
      (Reader.statements fin' substitutionExpr ts'))
    (h : evaluate bindings body = .ok v) : evaluate bindings body' = .ok v := by
  unfold evaluate bodyStatements at h ⊢
  simp only [hts, hts', Except.map] at h ⊢
  split at h
  · cases h
  · next value hvalue =>
    rw [hrefine _ _ _ _ hvalue]
    exact h

/-- **A body has the same value behind a comment.**

**Proof sketch.** The comment is a gap, so that the tokens are those of the body, at other offsets
and with a line break in front of the first one. Neither changes what is read
(`Reader.statements_erases`, `Reader.statements_of_first`). -/
theorem evaluate_behind_comment {bindings : List (String × Value)} {body c : String} {v : Value}
    (hc : ¬ ['*', '/'] <:+: c.toList) (h : evaluate bindings body = .ok v) :
    evaluate bindings ("/*" ++ c ++ "*/\n" ++ body) = .ok v := by
  have htext : ("/*" ++ c ++ "*/\n" ++ body).toList =
      '/' :: '*' :: (c.toList ++ '*' :: '/' :: '\n' :: body.toList) := by
    simp
  cases hts : lexemes (locate 0 body.toList) with
  | error f =>
    simp only [evaluate, bodyStatements, hts, Except.map] at h
    cases h
  | ok ts =>
    obtain ⟨o, hgap⟩ := exists_skipGap_comment body.toList hc
    obtain ⟨moved, hmoved, htwin⟩ := exists_lexemes_of_twin hts (twin_locate o 0 body.toList)
    obtain ⟨ts', hts', hfirst⟩ := exists_lexemes_of_skipGap hgap hmoved
    refine evaluate_of_refines hts (htext ▸ hts') (fun fin fin' scope value hvalue => ?_) h
    have herases : Reader.Erases [] [] .outside ts moved := by
      have hboth : Reader.Erases [] [] .outside (ts ++ []) (moved ++ []) := .of_twin htwin
      rwa [List.append_nil, List.append_nil] at hboth
    have hrun := Reader.statements_erases (fun _ _ => substitutionExpr_refines) fin fin' herases
      scope value hvalue
    rcases hfirst with rfl | ⟨t, t', rest, rfl, rfl, htoken⟩
    · exact hrun
    · exact Reader.statements_of_first htoken scope value hrun

/-- **A module has the same imports and the same value behind an inert comment.**

**Proof sketch.** An inert comment is passed over by the three searches through the source (for
types, for import lines and for the default export), so that it ends up in front of the body
(`Source.Module.ofSource_behind_comment`). There it is a comment still, since without types it is
not closed earlier either, and a body has its value behind a comment (`evaluate_behind_comment`). -/
theorem evaluate_ofSource_behind_comment {bindings : List (String × Value)} {s c : String}
    {m : Source.Module} {v : Value} (hs : Source.Module.ofSource s = .ok m)
    (hv : evaluate bindings m.body = .ok v) (hc : ¬ "*/".toList <:+: c.toList)
    (hinert : Source.IsInert c.toList s.toList) :
    ∃ m', Source.Module.ofSource ("/*" ++ c ++ "*/\n" ++ s) = .ok m' ∧ m'.imports = m.imports ∧
      evaluate bindings m'.body = .ok v := by
  have hmodule := Source.Module.ofSource_behind_comment hinert
  rw [hs] at hmodule
  have hclose : ¬ ['*', '/'] <:+: (Source.dropTypes c).toList := by
    rw [Source.dropTypes, String.toList_ofList]
    exact not_isInfix_dropTypesFrom hc
  exact ⟨_, hmodule, rfl, evaluate_behind_comment hclose hv⟩

/-- The words among the tokens of a text. -/
def words? (cs : List Char) : Option (List (Option String)) :=
  (lexemes (locate 0 cs)).toOption.map fun ts => ts.map fun t => headWord? [t]

/-- The tokens of a text by their words. -/
lemma exists_lexemes_of_words {cs : List Char} {ws : List (Option String)}
    (h : words? cs = some ws) :
    ∃ ts, lexemes (locate 0 cs) = .ok ts ∧ ts.map (fun t => headWord? [t]) = ws := by
  unfold words? at h
  cases hts : lexemes (locate 0 cs) with
  | error f =>
    rw [hts] at h
    cases h
  | ok ts =>
    rw [hts] at h
    exact ⟨ts, rfl, Option.some.inj h⟩

/-- A body that returns a word has the value that the word stands for, whatever comments it
holds. -/
lemma evaluate_of_words (bindings : List (String × Value)) {body w : String}
    (hwords : words? body.toList = some [some "return", some w])
    (hw : w ∉ Reader.unsupportedWords) :
    evaluate bindings body =
      ((Reader.wordExpr w).eval (scopeOf bindings)).map (·.getD .null) := by
  obtain ⟨_, hts, hmap⟩ := exists_lexemes_of_words hwords
  obtain ⟨t, _, rfl, ht, hrest⟩ := List.map_eq_cons_iff.1 hmap
  obtain ⟨u, _, rfl, hu, hnil⟩ := List.map_eq_cons_iff.1 hrest
  obtain rfl := List.map_eq_nil_iff.1 hnil
  simp only [evaluate, bodyStatements, hts, Except.map]
  rw [Reader.statements_of_return _ _ (Reader.headWord?_eq_some_iff.1 ht)
    (Reader.headWord?_eq_some_iff.1 hu) hw]
  rfl

/-- A module behind a comment that speaks of an import and of a declaration. -/
theorem evaluate_behind_remark :
    ∃ m', Source.Module.ofSource ("/*" ++ " was: import a from './a', let a: T = b " ++ "*/\n" ++
        "import card from './card'\nexport default card // = 1") = .ok m' ∧
      m'.imports = [⟨"card", "./card"⟩] ∧
      evaluate [("card", .bool true)] m'.body = .ok (.bool true) := by
  have hs : Source.Module.ofSource "import card from './card'\nexport default card // = 1" =
      .ok ⟨[⟨"card", "./card"⟩], "\nreturn card // = 1"⟩ := by
    decide +kernel
  have hv : evaluate [("card", .bool true)] "\nreturn card // = 1" = .ok (.bool true) := by
    rw [evaluate_of_words _ (by decide +kernel : words? "\nreturn card // = 1".toList =
      some [some "return", some "card"]) (by decide)]
    rfl
  have hcut : (Source.cutImports true
      "import card from './card'\nexport default card // = 1".toList).2 =
        "\nexport default card // = 1".toList := by
    decide +kernel
  have hends : ∀ cut ∈ " was: import a from './a', let a: T = b ".toList.inits.zip
        " was: import a from './a', let a: T = b ".toList.tails,
      ∀ found ∈ Source.typedDeclaration? cut.1.getLast?
          (cut.2 ++ Source.behindComment "\nexport default card // = 1".toList),
        Source.behindComment "\nexport default card // = 1".toList <:+ found.2 := by
    decide +kernel
  refine evaluate_ofSource_behind_comment hs hv (by decide +kernel) ⟨fun b hb => ?_,
    fun a b hab head behind hfound => ?_, by decide +kernel⟩
  · exact absurd (hb.mem (List.mem_cons_self ..)) (by decide +kernel)
  · rw [hcut] at hfound ⊢
    exact hends (a, b) (List.mem_zip_inits_tails.2 hab) _ hfound

/-- A comment changes the module behind it if an import line begins in it, if a declaration in it
takes its equals sign from behind it, or if it holds the first default export. -/
theorem evaluate_behind_loud_comment :
    Source.Module.ofSource "export default true // = 1" = .ok ⟨[], "return true // = 1"⟩ ∧
      evaluate [] "return true // = 1" = .ok (.bool true) ∧
      (∀ c ∈ ["\nimport x from './y'\n", " let a: T ", " export default "],
        ¬ "*/".toList <:+: c.toList) ∧
      Source.Module.ofSource ("/*" ++ "\nimport x from './y'\n" ++ "*/\n" ++
          "export default true // = 1") =
        .ok ⟨[⟨"x", "./y"⟩], "/*\n\n*/\nreturn true // = 1"⟩ ∧
      Source.Module.ofSource ("/*" ++ " let a: T " ++ "*/\n" ++ "export default true // = 1") =
        .error .missingExport ∧
      Source.Module.ofSource ("/*" ++ " export default " ++ "*/\n" ++ "export default true // = 1") =
        .ok ⟨[], "/* return */\nexport default true // = 1"⟩ ∧
      ∀ v, evaluate [] "/* return */\nexport default true // = 1" ≠ .ok v := by
  refine ⟨by decide +kernel, ?_, by decide +kernel, by decide +kernel, by decide +kernel,
    by decide +kernel, fun v hv => ?_⟩
  · rw [evaluate_of_words _ (by decide +kernel : words? "return true // = 1".toList =
      some [some "return", some "true"]) (by decide)]
    rfl
  · have hwords : words? "/* return */\nexport default true // = 1".toList =
        some [some "export", some "default", some "true"] := by
      decide +kernel
    obtain ⟨_, hts, hmap⟩ := exists_lexemes_of_words hwords
    obtain ⟨t, rest, rfl, ht, hrest⟩ := List.map_eq_cons_iff.1 hmap
    obtain ⟨u, more, rfl, hu, -⟩ := List.map_eq_cons_iff.1 hrest
    have hdefault : headWord? (u :: more) = some "default" :=
      Reader.headWord?_eq_some_iff.2 (Reader.headWord?_eq_some_iff.1 hu)
    have hexport := Reader.headWord?_eq_some_iff.1 ht
    simp only [evaluate, bodyStatements, hts, Except.map] at hv
    rw [Reader.statements_of_word hexport, if_neg (by decide), if_neg (by decide), if_pos rfl,
      hdefault] at hv
    cases hv

end CardTable.Script
