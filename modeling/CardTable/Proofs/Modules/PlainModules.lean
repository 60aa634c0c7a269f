import CardTable.Proofs.Modules.ModuleValues

set_option autoImplicit false

/-!
# Modules without imports

The value of a module that imports nothing is what its text returns. If this is a word, then it is
what the word stands for.

## Main definitions

* `CardTable.Script.Reader.wordExpr` — what a word stands for.

## Main results

* `CardTable.hasValue_iff_of_plain` — a module without imports and types.
* `CardTable.Script.evaluate_of_return` — a body that returns a word.
-/

namespace CardTable

open ModuleGraph (sourceAt targets)

/-! ## Texts without imports and types -/

/-- Nothing is cut out of a text where no import line begins. -/
lemma cutImports_of_tails {cs : List Char} (atStart : Bool)
    (h : cs.tails.all fun s => (Source.importLine? s).isNone) :
    Source.cutImports atStart cs = ([], cs) := by
  induction cs generalizing atStart with
  | nil => rw [Source.cutImports]
  | cons c rest ih =>
    rw [List.tails, List.all_cons, Bool.and_eq_true] at h
    have hline : Source.lineAt? atStart (c :: rest) = none := by
      unfold Source.lineAt?
      split
      · exact Option.isNone_iff_eq_none.1 h.1
      · rfl
    rw [Source.cutImports]
    split
    · next hsome => cases hline.symm.trans hsome
    · rw [ih (c == '\n') h.2]

/-- No type is dropped from a text where no typed declaration begins. -/
lemma dropTypesFrom_of_tails {cs : List Char} (previous : Option Char)
    (h : cs.tails.all fun s => (Source.typedDeclaration? none s).isNone) :
    Source.dropTypesFrom previous cs = cs := by
  induction cs generalizing previous with
  | nil => rw [Source.dropTypesFrom]
  | cons c rest ih =>
    rw [List.tails, List.all_cons, Bool.and_eq_true] at h
    have hplain : Source.typedDeclaration? previous (c :: rest) = none := by
      have hfront := Option.isNone_iff_eq_none.1 h.1
      unfold Source.typedDeclaration? at hfront ⊢
      split
      · rfl
      · have hstart : ¬ Option.any Text.isWord none = true := Bool.false_ne_true
        rwa [if_neg hstart] at hfront
    rw [Source.dropTypesFrom]
    split
    · next hsome => cases hplain.symm.trans hsome
    · rw [ih (some c) h.2]

/-- **A module without imports and types** has the value that its text returns. -/
theorem hasValue_iff_of_plain {t : FileTree} {loc : Location} {text : String} {body : List Char}
    (hread : t.readTextAt loc = .ok text)
    (himports : text.toList.tails.all fun s => (Source.importLine? s).isNone)
    (htypes : text.toList.tails.all fun s => (Source.typedDeclaration? none s).isNone)
    (hexport : Source.exportDefault? text.toList = some body) :
    sourceAt t loc = .ok ⟨[], String.ofList body⟩ ∧
      ∀ v, HasValue t loc v ↔ Script.evaluate [] (String.ofList body) = .ok v := by
  have hsource : sourceAt t loc = .ok ⟨[], String.ofList body⟩ := by
    have hparse : Source.Module.ofSource text = .ok ⟨[], String.ofList body⟩ := by
      rw [Source.Module.ofSource, cutImports_of_tails true himports]
      dsimp only
      rw [dropTypesFrom_of_tails none htypes, hexport]
      rfl
    simp only [sourceAt, hread, hparse]
  refine ⟨hsource, fun v => ?_⟩
  have hiff := @hasValue_iff t loc _ v (fun _ => .null) hsource
  dsimp only [targets, List.filterMap_nil, List.map_nil] at hiff
  exact hiff fun _ htarget => absurd htarget List.not_mem_nil

/-! ## Words that are returned -/

namespace Script

namespace Reader

/-- What a word stands for on its own. -/
def wordExpr (w : String) : Expr :=
  match wordConstant? w with
  | some v => .constant v
  | none => .name w

section

variable (fin : TextEnd) (inner : Substitution → Expr) {t u : Lexeme} {w : String}

/-- A word is not a sign. -/
lemma atSign_of_word (hu : u.token = .word w) (c : Char) (rest : List Lexeme) :
    atSign c (u :: rest) = false := by
  obtain ⟨token, offset, afterBreak, source⟩ := u
  obtain rfl : token = .word w := hu
  rfl

/-- An expression that is a word. -/
lemma expression_of_word (hu : u.token = .word w) (hw : w ∉ unsupportedWords) :
    expression fin inner [u] = .whole (wordExpr w) [] (Nat.lt_succ_self _) := by
  have hsign : ∀ c, sign? c [u] = none := by
    intro c
    rw [sign?, if_neg (by rw [atSign_of_word hu]; decide)]
  have hprimary : primary fin inner [u] = .whole (wordExpr w) [] (Nat.lt_succ_self _) := by
    rw [primary]
    simp only [hu]
    unfold wordExpr
    cases wordConstant? w with
    | some v => rfl
    | none =>
      simp only [if_neg hw]
      rw [if_neg (by decide)]
  have hcasts : skipCasts [] = [] := by simp [skipCasts]
  rw [expression, unary]
  simp only [hsign, hprimary]
  rw [links]
  simp only [Reading.weaken, hcasts]
  rfl

/-- A statement that returns a word. -/
lemma statements_of_return (ht : t.token = .word "return") (hu : u.token = .word w)
    (hw : w ∉ unsupportedWords) : statements fin inner [t, u] = [.result (wordExpr w)] := by
  rw [statements]
  simp only [ht, atSign_of_word hu, expression_of_word fin inner hu hw]
  rfl

end

end Reader

/-- The tokens of a body that returns a word. -/
lemma lexemes_of_return {g : Glyph} {rest : List Glyph} {word : String}
    (hgap : isGap g.char = false) (hslash : g.char ≠ '/')
    (hword : token g rest = .ok (.word word, [])) :
    lexemes (locate 0 "return ".toList ++ g :: rest) = .ok
      [⟨.word "return", 0, false, locate 0 "return".toList⟩,
        ⟨.word word, g.offset, false, g :: rest⟩] := by
  have hfirst : skipGap (locate 0 "return ".toList ++ g :: rest) =
      .ok (false, ⟨0, 'r'⟩ :: (locate 1 "eturn ".toList ++ g :: rest)) :=
    skipGap_of_not_isGap _ rfl (by decide)
  have hreturn : token ⟨0, 'r'⟩ (locate 1 "eturn ".toList ++ g :: rest) =
      .ok (.word "return", ⟨6, ' '⟩ :: g :: rest) := rfl
  have hblank : skipGap (⟨6, ' '⟩ :: g :: rest) = .ok (false, g :: rest) := by
    rw [skipGap_of_isGap _ rfl, skipGap_of_not_isGap rest hgap hslash]
    rfl
  have hend : skipGap [] = .ok (false, []) := by rw [skipGap]
  rw [lexemes_of_token hfirst hreturn, lexemes_of_token hblank hword, lexemes_of_end hend]
  rfl

/-- **A body that returns a word** has the value that the word stands for. -/
theorem evaluate_of_return {g : Glyph} {rest : List Glyph} {word body : String}
    (bindings : List (String × Value))
    (hbody : locate 0 body.toList = locate 0 "return ".toList ++ g :: rest)
    (hgap : isGap g.char = false) (hslash : g.char ≠ '/')
    (hword : token g rest = .ok (.word word, [])) (hsupported : word ∉ Reader.unsupportedWords) :
    evaluate bindings body =
      ((Reader.wordExpr word).eval (scopeOf bindings)).map (·.getD .null) := by
  have htokens := lexemes_of_return hgap hslash hword
  unfold evaluate bodyStatements
  simp only [hbody, htokens, Except.map]
  rw [Reader.statements_of_return (w := word) _ _ rfl rfl hsupported]
  rfl

end Script

end CardTable
