import CardTable.Proofs.Script.TokensWithoutTypes

set_option autoImplicit false

/-!
# Bodies without types

A body keeps its value without types if what is found and dropped are declarations of the body, each
with an annotation up to the equals sign, or stands in a comment. It may change its value if a
declaration is found in a literal, or if an equals sign is found that belongs to another statement.

## Main results

* `CardTable.Script.evaluate_dropTypes` — a body keeps its value.
-/

namespace CardTable.Script

open Reader

/-! ## The value of a body -/

/-- **A body keeps its value without types**: if every typed declaration that is found in its text
is a declaration of the body, with an annotation up to the equals sign, or stands in a comment that
it does not end, then the body without the types has the same value. Its tokens are the same ones
but for the annotations.

**Proof sketch.** The stretches that are found are dropped (`drops_dropTypesFrom`), so that the
tokens of the text without types are those of the body but for annotations (`lexemes_drops`).
Statements that are read without annotations have the same values (`Reader.statements_erases`). -/
theorem evaluate_dropTypes (bindings : List (String × Value)) {body : String} {ts : List Lexeme}
    {v : Value} (hts : lexemes (locate 0 body.toList) = .ok ts)
    (hfound : ∀ s ∈ typedStretches none (locate 0 body.toList), IsErasable ts s)
    (h : evaluate bindings body = .ok v) :
    evaluate bindings (Source.dropTypes body) = .ok v ∧
      ∃ ts', lexemes (locate 0 (Source.dropTypes body).toList) = .ok ts' ∧
        Erases [] [] .outside ts ts' := by
  have hdrops := drops_dropTypesFrom hfound
  rw [chars_locate] at hdrops
  have htext : (Source.dropTypes body).toList = Source.dropTypesFrom none body.toList :=
    String.toList_ofList
  obtain ⟨ts', hts', herases⟩ := lexemes_drops (isLocated_locate 0 _) hts hdrops 0
  refine ⟨?_, ts', htext ▸ hts', herases⟩
  unfold evaluate bodyStatements at h ⊢
  simp only [hts, Except.map] at h
  simp only [htext, hts', Except.map]
  split at h
  · cases h
  · next value hvalue =>
    have hrefine := Reader.statements_erases (fun _ _ => substitutionExpr_refines)
      (.of (Text.byteCount body.toList) ts)
      (.of (Text.byteCount (Source.dropTypesFrom none body.toList)) ts') herases
    have hrun := hrefine _ _ hvalue
    rw [hrun]
    exact h

/-- A body with a declaration that has a type, and with another one in a comment. -/
def annotated : String :=
  "const a: T = true // let b: U = 2\nreturn a"

/-- Whether tokens are those of a declaration and a statement behind it, with the places of that
body. -/
def spellsAnnotated : List Lexeme → Bool
  | [keyword, name, colon, type, equals, value, result, named] =>
    decide ([keyword, name, type, value, result, named].map (headWord? [·]) =
        ["const", "a", "T", "true", "return", "a"].map some ∧
      atSign ':' [colon] = true ∧ atSign '=' [equals] = true ∧
      keyword.offset = 0 ∧ equals.offset = 11 ∧
      ∀ t ∈ [keyword, name, colon, type, equals, value, result, named], ∀ g ∈ t.source,
        g.offset < 21 ∨ 32 < g.offset)
  | _ => false

/-- The tokens of that body. -/
lemma exists_lexemes_annotated : ∃ keyword name colon type equals value result named : Lexeme,
    lexemes (locate 0 annotated.toList) =
        .ok [keyword, name, colon, type, equals, value, result, named] ∧
      [keyword, name, type, value, result, named].map (headWord? [·]) =
        ["const", "a", "T", "true", "return", "a"].map some ∧
      atSign ':' [colon] = true ∧ atSign '=' [equals] = true ∧
      keyword.offset = 0 ∧ equals.offset = 11 ∧
      ∀ t ∈ [keyword, name, colon, type, equals, value, result, named], ∀ g ∈ t.source,
        g.offset < 21 ∨ 32 < g.offset := by
  have hcheck : (lexemes (locate 0 annotated.toList)).toOption.any spellsAnnotated = true := by
    decide +kernel
  obtain ⟨ts, hts, hspells⟩ := (Option.any_eq_true ..).1 hcheck
  have hlexemes : lexemes (locate 0 annotated.toList) = .ok ts := by
    cases hall : lexemes (locate 0 annotated.toList) with
    | error e =>
      rw [hall] at hts
      cases hts
    | ok found =>
      rw [hall] at hts
      exact congrArg _ (Option.some.inj hts)
  unfold spellsAnnotated at hspells
  split at hspells
  · exact ⟨_, _, _, _, _, _, _, _, hlexemes, of_decide_eq_true hspells⟩
  · cases hspells

/-- The value of that body. -/
lemma evaluate_annotated : evaluate [] annotated = .ok (.bool true) := by
  obtain ⟨keyword, name, colon, type, equals, value, result, named, hts, hwords, hcolon, hequals,
    -, -, -⟩ := exists_lexemes_annotated
  simp only [List.map_cons, List.map_nil, List.cons.injEq, headWord?_eq_some_iff, and_true]
    at hwords
  obtain ⟨hkeyword, hname, htype, hvalue, hresult, hnamed⟩ := hwords
  have hplain : ¬ startsCast result := by
    rintro ⟨w, hw, hcast⟩
    obtain rfl := Token.word.inj (hresult.symm.trans hw)
    exact absurd hcast (by decide)
  have hends : EndsExpression (skipCasts [result, named]) := by
    rw [skipCasts_of_not_startsCast hplain]
    exact fun c _ => atSign_eq_false (by simp [hresult])
  have hconstant : Reads substitutionExpr .expression [value, result, named]
      (.expr (.constant (some (.bool true)))) (skipCasts [result, named]) :=
    .expression (.plain (.atom (by rw [hvalue]; rfl)) (.linksEnd (endsLinks_of_word hresult))) hends
  have hreturned : Reads substitutionExpr .expression [named] (.expr (.name "a")) [] :=
    reads_expression_of_unary (reads_unary_of_primary
      (.name hnamed (by decide) (by decide) rfl) (.inl rfl)) (.inl rfl)
  have hdeclared : IsDeclaredType 0 [type] := by
    simp [IsDeclaredType, htype, startsStatement, isDeclarator]
  have hskip : skipDeclaredType [colon, type, equals, value, result, named] =
      [equals, value, result, named] :=
    skipDeclaredType_of_type (atSign_cons_iff.1 hcolon) hdeclared (atSign_cons_iff.1 hequals) _
  rw [skipCasts_of_not_startsCast hplain] at hconstant
  unfold evaluate bodyStatements
  simp only [hts, Except.map]
  generalize TextEnd.of _ _ = fin
  have hwhole := (expression_isWhole_iff fin).2 hconstant
  obtain ⟨_, hwhole'⟩ := (expression_isWhole_iff fin).2 hreturned
  have hstop :
      atSign '=' (skipDeclaredType [colon, type, equals, value, result, named]) = true := by
    rw [hskip]
    exact atSign_cons_iff.2 (atSign_cons_iff.1 hequals)
  have htail : (expression fin substitutionExpr
      (skipDeclaredType [colon, type, equals, value, result, named]).tail).IsWhole
        (.constant (some (.bool true))) [result, named] := by
    rw [hskip]
    exact hwhole
  rw [statements_of_word hkeyword, if_pos (by decide), declarations_of_whole hname hstop htail,
    declarationEnd_of_not_comma (atSign_eq_false (by simp [hresult])),
    statementEnd_of_not_semicolon (by simp [IsPunct, hresult]),
    headWord?_eq_some_iff.2 hresult, if_pos (by decide), statements_of_result _ _ hresult (by simp)
      (fun c _ => atSign_eq_false (by simp [hnamed])), hwhole']
  rfl

/-- A body with annotations keeps its value. -/
theorem evaluate_dropTypes_annotated : evaluate [] annotated = .ok (.bool true) ∧
    Source.dropTypes annotated = "const a = true // let b = 2\nreturn a" ∧
    evaluate [] "const a = true // let b = 2\nreturn a" = .ok (.bool true) := by
  obtain ⟨keyword, name, colon, type, equals, value, result, named, hts, hwords, hcolon, hequals,
    hfirst, hlast, houtside⟩ := exists_lexemes_annotated
  simp only [List.map_cons, List.map_nil, List.cons.injEq, headWord?_eq_some_iff, and_true]
    at hwords
  obtain ⟨-, -, htype, -⟩ := hwords
  have htext : Source.dropTypes annotated = "const a = true // let b = 2\nreturn a" := by
    decide +kernel
  have hstretches : typedStretches none (locate 0 annotated.toList) =
      [locate 0 "const a: T =".toList, locate 21 "let b: U =".toList] := by
    decide +kernel
  refine ⟨evaluate_annotated, htext, ?_⟩
  rw [← htext]
  refine (evaluate_dropTypes [] hts ?_ evaluate_annotated).1
  rw [hstretches]
  simp only [List.mem_cons, List.not_mem_nil, or_false, forall_eq_or_imp, forall_eq]
  constructor
  · exact .inl ⟨[], keyword, name, colon, [type], equals, _, rfl,
      by simp [IsDeclaredType, htype, startsStatement, isDeclarator],
      by rw [hfirst]; decide +kernel, by rw [hlast]; decide +kernel⟩
  · refine .inr ⟨fun t ht g hg hmem => ?_, by decide +kernel, by decide +kernel⟩
    have hsize : 21 + Text.byteCount "let b: U =".toList = 31 := by decide +kernel
    have hinside := offset_of_mem_locate hmem
    have houtside := houtside t ht g hg
    omega

/-- A declaration that is found in a string literal changes its text, and one without a value takes
the next statement along. -/
theorem evaluate_dropTypes_quoted :
    evaluate [] "return \"let a: b = c\"" = .ok (.str "let a: b = c") ∧
      evaluate [] (Source.dropTypes "return \"let a: b = c\"") = .ok (.str "let a = c") ∧
      Source.dropTypes "let a: b\nlet c = 1\nreturn c" = "let a = 1\nreturn c" := by
  have htext : "return \"let a: b = c\"" = "return " ++ Json.text (.str "let a: b = c") := by
    decide +kernel
  have hdropped : Source.dropTypes "return \"let a: b = c\"" =
      "return " ++ Json.text (.str "let a = c") := by
    decide +kernel
  refine ⟨?_, ?_, by decide +kernel⟩
  · rw [htext, evaluate_return_quote]
  · rw [hdropped, evaluate_return_quote]

end CardTable.Script
