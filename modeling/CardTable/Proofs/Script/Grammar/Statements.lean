import CardTable.Proofs.Script.Grammar.Relocation

set_option autoImplicit false

/-!
# Statements without annotations

A body without some of its annotations ends in the same value. Its statements are compared one by
one with those of the whole body: a declaration skips its annotation itself, and where an annotation
stands behind no declared name, no statement goes on.

## Main definitions

* `CardTable.Script.StatementsRefine` — the other statements end in the same value wherever the
  first ones end in one.

## Main results

* `CardTable.Script.Reader.expression_erases` — an expression is read to its end in both lists.
* `CardTable.Script.Reader.statements_erases` — statements end in the same value without
  annotations.
-/

namespace CardTable.Script

/-! ## Refinement of statements -/

/-- Wherever the statements `ss` end in a value, `ss'` end in the same one. -/
def StatementsRefine (ss ss' : List Statement) : Prop :=
  ∀ scope v, run scope ss = .ok v → run scope ss' = .ok v

/-- The statements end in no value. -/
def StatementsFail (ss : List Statement) : Prop :=
  ∀ scope v, run scope ss ≠ .ok v

section Refinement

variable {e e' : Expr} {ss ss' : List Statement}

/-- A cut ends in no value. -/
lemma statementsFail_cut (f : Fault) (ss : List Statement) : StatementsFail (.cut f :: ss) :=
  fun _ _ h => nomatch h

/-- Statements fail with the expression that comes first. -/
lemma Expr.Fails.evaluate (h : e.Fails) (ss : List Statement) :
    StatementsFail (.evaluate e :: ss) := by
  intro scope v hv
  rw [run, bind_eq_ok_iff] at hv
  obtain ⟨w, hw, -⟩ := hv
  exact h _ _ hw

/-- Statements fail with the value of the declaration that comes first. -/
lemma Expr.Fails.declare (h : e.Fails) (name : String) (ss : List Statement) :
    StatementsFail (.declare name e :: ss) := by
  intro scope v hv
  rw [run, bind_eq_ok_iff] at hv
  obtain ⟨w, hw, -⟩ := hv
  exact h _ _ hw

/-- A declaration in front of statements that end in no value. -/
lemma StatementsFail.declare (h : StatementsFail ss) (name : String) (e : Expr) :
    StatementsFail (.declare name e :: ss) := by
  intro scope v hv
  rw [run, bind_eq_ok_iff] at hv
  obtain ⟨w, -, hv⟩ := hv
  exact h _ _ hv

namespace StatementsRefine

/-- Statements that end in no value refine to all statements. -/
lemma of_fails (h : StatementsFail ss) : StatementsRefine ss ss' :=
  fun scope v hv => absurd hv (h scope v)

/-- All statements refine to themselves. -/
lemma refl (ss : List Statement) : StatementsRefine ss ss :=
  fun _ _ h => h

/-- Statements refine with one more expression in front if this does. -/
lemma evaluate (he : e.Refines e') (hss : StatementsRefine ss ss') :
    StatementsRefine (.evaluate e :: ss) (.evaluate e' :: ss') := by
  intro scope v hv
  simp only [run, bind_eq_ok_iff] at hv ⊢
  obtain ⟨w, hw, hv⟩ := hv
  exact ⟨w, he _ _ hw, hss _ _ hv⟩

/-- Statements refine with one more declaration in front if its value does. -/
lemma declare (he : e.Refines e') (hss : StatementsRefine ss ss') (name : String) :
    StatementsRefine (.declare name e :: ss) (.declare name e' :: ss') := by
  intro scope v hv
  simp only [run, bind_eq_ok_iff] at hv ⊢
  obtain ⟨w, hw, hv⟩ := hv
  exact ⟨w, he _ _ hw, hss _ _ hv⟩

/-- Results refine like their expressions. -/
lemma result (he : e.Refines e') : StatementsRefine [.result e] [.result e'] :=
  fun scope v hv => he scope v hv

end StatementsRefine

end Refinement

namespace Reader

/-! ## Annotations of declarations -/

section Declared

variable {ts ts' type : List Lexeme} {colon equals : Lexeme}

/-- The same sign stands first in both lists, and what is behind it. -/
lemma tail_erases {c : Char} (h : Erases [] [] .outside ts ts' ∨ IsStuck ts)
    (hat : atSign c ts = true) :
    atSign c ts' = true ∧ Erases [] [] .outside ts.tail ts'.tail := by
  obtain ⟨t, rest, rfl, ht⟩ := exists_of_atSign hat
  obtain ⟨t', rest', rfl, halike, hrest⟩ := exists_of_erases_or_isStuck h ht.ne_word (Nat.zero_le _)
  exact ⟨atSign_cons_iff.2 ((halike.isPunct_iff _).2 ht), hrest⟩

/-- The annotation behind a declared name is skipped up to its equals sign. -/
lemma skipDeclaredType_of_type (hcolon : IsPunct ':' colon)
    (htype : IsDeclaredType 0 type) (hequals : IsPunct '=' equals) (ts : List Lexeme) :
    skipDeclaredType (colon :: (type ++ equals :: ts)) = equals :: ts := by
  have hstops : ∀ c : Char, (c == '=') = true → c = '=' := fun _ => beq_iff_eq.1
  have hend : ∀ begun, skipType (· == '=') 0 begun (equals :: ts) = equals :: ts := by
    intro begun
    refine skipType_of_ends ?_
    rw [endsType, hequals]
    exact ⟨rfl, .inl rfl⟩
  rw [skipDeclaredType, if_pos (atSign_cons_iff.2 hcolon), List.tail_cons]
  cases type with
  | nil => exact hend false
  | cons t rest =>
    -- the first token of an annotation is skipped without a look at the line it stands on
    obtain ⟨hends, inside, hrest, hbehind⟩ := htype.step false hstops 0
    rw [List.cons_append, skipType_of_not_ends hends, hbehind, skipType_append hstops hrest, hend]

/-- Without a colon there is no annotation. -/
lemma skipDeclaredType_of_not_colon (h : atSign ':' ts = false) : skipDeclaredType ts = ts := by
  rw [skipDeclaredType, h]
  rfl

/-- An annotation is skipped up to the same token, or nothing goes on behind it. -/
lemma skipDeclaredType_erases (h : Erases [] [] .outside ts ts') :
    Erases [] [] .outside (skipDeclaredType ts) (skipDeclaredType ts') ∨
      IsStuck (skipDeclaredType ts) := by
  have hend : EndAlike [] [] := .inl ⟨rfl, rfl⟩
  cases hat : atSign ':' ts with
  | false =>
    rw [skipDeclaredType_of_not_colon hat,
      skipDeclaredType_of_not_colon ((atSign_erases hend h ':').trans hat)]
    exact .inl h
  | true =>
    obtain ⟨hat', htail⟩ := tail_erases (.inl h) hat
    rw [skipDeclaredType, if_pos hat, skipDeclaredType, if_pos hat']
    exact skipType_erases (fun _ => beq_iff_eq.1) hend htail 0 false (Nat.zero_le _)

end Declared

/-! ## Expressions in statements -/

section Statements

variable {fin fin' : TextEnd} {inner inner' : Substitution → Expr} {ts ts' : List Lexeme}

/-- A semicolon on its own is skipped. -/
lemma statements_of_semicolon {t : Lexeme} (ht : IsPunct ';' t) (rest : List Lexeme) :
    statements fin inner (t :: rest) = statements fin inner rest := by
  rw [statements]
  simp only [show t.token = _ from ht]

/-- The statements behind a word, by what it begins. -/
lemma statements_of_word {t : Lexeme} {w : String} (ht : t.token = .word w)
    (rest : List Lexeme) : statements fin inner (t :: rest) =
      if isDeclarator w then declarations fin inner rest
      else if w = "return" then
        if rest = [] ∨ atSign ';' rest ∨ atSign '\x7d' rest then [.result (.constant none)]
        else [.result (expression fin inner rest).tree]
      else if w = "export" then
        if (headWord? rest).any isDeclarator then statements fin inner rest
        else [.cut ⟨fin.offsetOf rest, .bareExport⟩]
      else if w ∈ refusedStatements then [.cut ⟨t.offset, .statement w⟩]
      else expressionStatement fin inner (t :: rest) := by
  rw [statements]
  simp only [ht]

/-- Every other token begins an expression. -/
lemma statements_of_not_word {t : Lexeme} (hsemicolon : ¬ IsPunct ';' t)
    (hword : ∀ w, t.token ≠ .word w) (rest : List Lexeme) :
    statements fin inner (t :: rest) = expressionStatement fin inner (t :: rest) := by
  rw [statements]
  split
  · next h => exact absurd h hsemicolon
  · next w h => exact absurd h (hword w)
  · rfl

/-- Behind a semicolon the next statement begins. -/
lemma statementEnd_of_semicolon {t : Lexeme} (ht : IsPunct ';' t) (rest : List Lexeme) :
    statementEnd fin inner (t :: rest) = statements fin inner rest := by
  obtain ⟨_, _, _, _⟩ := t
  obtain rfl := ht
  rw [statementEnd]

/-- Without a semicolon only a word that begins a statement goes on. -/
lemma statementEnd_of_not_semicolon {t : Lexeme} (ht : ¬ IsPunct ';' t) (rest : List Lexeme) :
    statementEnd fin inner (t :: rest) =
      if (headWord? (t :: rest)).any startsStatement then statements fin inner (t :: rest)
      else [.cut ⟨t.offset, .behindExpression⟩] := by
  rw [statementEnd]
  rintro _ _ _ rfl
  exact ht rfl

/-- The first word, if the first token is one. -/
lemma headWord?_eq_some_iff {t : Lexeme} {rest : List Lexeme} {w : String} :
    headWord? (t :: rest) = some w ↔ t.token = .word w := by
  obtain ⟨token, _, _, _⟩ := t
  cases token <;> simp [headWord?]

/-- Nothing but a name is declared. -/
lemma declarations_fails {t : Lexeme} (ht : ∀ w, t.token ≠ .word w) (rest : List Lexeme) :
    StatementsFail (declarations fin inner (t :: rest)) := by
  rw [declarations]
  split
  · next w heq => exact absurd heq (ht w)
  · exact statementsFail_cut _ _

/-- The same word stands first in both lists. -/
lemma headWord?_erases (h : Erases [] [] .outside ts ts') : headWord? ts' = headWord? ts := by
  cases ts with
  | nil =>
    obtain rfl := h.eq_of_behind
    rfl
  | cons t rest =>
    obtain ⟨t', rest', rfl, halike, -⟩ := h.exists_cons (Nat.zero_le _)
    exact Option.ext fun w => by rw [headWord?_eq_some_iff, headWord?_eq_some_iff, halike.word_iff]

/-- Both lists end at the same time. -/
lemma Erases.eq_nil_iff (h : Erases [] [] .outside ts ts') : ts' = [] ↔ ts = [] := by
  cases h <;> simp

/-- No statement goes on where nothing goes on. -/
lemma statementEnd_fails (h : IsStuck ts) : StatementsFail (statementEnd fin inner ts) := by
  obtain ⟨name, colon, rest, w, rfl, hname, hcolon⟩ := h
  have hsemicolon : ¬ IsPunct ';' name := by
    rw [IsPunct, hname]
    intro hpunct
    cases hpunct
  have hcolon' : ∀ w, headWord? (colon :: rest) ≠ some w :=
    fun w hw => hcolon.ne_word w (headWord?_eq_some_iff.1 hw)
  rw [statementEnd_of_not_semicolon hsemicolon, headWord?_eq_some_iff.2 hname, Option.any_some]
  by_cases hstarts : startsStatement w = true
  swap
  · rw [if_neg hstarts]
    exact statementsFail_cut _ _
  rw [if_pos hstarts, statements]
  simp only [hname]
  by_cases hdeclarator : isDeclarator w = true
  · rw [if_pos hdeclarator]
    exact declarations_fails hcolon.ne_word rest
  rw [if_neg hdeclarator]
  by_cases hreturn : w = "return"
  · have hends : ¬ (colon :: rest = [] ∨ atSign ';' (colon :: rest) = true ∨
        atSign '\x7d' (colon :: rest) = true) := by
      simp [hcolon.atSign_cons]
    rw [if_pos hreturn, if_neg hends]
    intro scope v hv
    obtain ⟨us, hreads⟩ := exists_reads_of_eval fin inner hv
    have hfirst := atSign_of_reads hreads (by decide) (c := ':') (by decide)
    rw [atSign_cons_iff.2 hcolon] at hfirst
    cases hfirst
  · have hexport : w = "export" := by
      simpa [startsStatement, hdeclarator, hreturn] using hstarts
    have hhead : headWord? (colon :: rest) = none := Option.eq_none_iff_forall_ne_some.2 hcolon'
    rw [if_neg hreturn, if_pos hexport, hhead]
    exact statementsFail_cut _ _

/-- Behind a comma the next declaration stands. -/
lemma declarationEnd_of_comma {t : Lexeme} (ht : IsPunct ',' t) (rest : List Lexeme) :
    declarationEnd fin inner (t :: rest) = declarations fin inner rest := by
  obtain ⟨_, _, _, _⟩ := t
  obtain rfl := ht
  rw [declarationEnd]

/-- Without a comma the statement ends behind a declared name. -/
lemma declarationEnd_of_not_comma (h : atSign ',' ts = false) :
    declarationEnd fin inner ts = statementEnd fin inner ts := by
  rw [declarationEnd]
  rintro _ _ _ _ rfl
  cases h

section Declare

variable {name : Lexeme} {w : String} {rest us : List Lexeme} {e : Expr}

/-- A declared name with no value behind it. -/
lemma declarations_of_no_value (hname : name.token = .word w)
    (hequals : atSign '=' (skipDeclaredType rest) = false) :
    declarations fin inner (name :: rest) =
      .declare w (.constant none) :: declarationEnd fin inner (skipDeclaredType rest) := by
  rw [declarations]
  simp only [hname, hequals, Bool.false_eq_true, if_false]

/-- A declared name with a value that is cut short. -/
lemma declarations_of_cut (hname : name.token = .word w)
    (hequals : atSign '=' (skipDeclaredType rest) = true)
    (hvalue : expression fin inner (skipDeclaredType rest).tail = .cut e) :
    declarations fin inner (name :: rest) = [.declare w e] := by
  rw [declarations]
  simp only [hname, hequals, if_true, hvalue]

/-- A declared name with its value. -/
lemma declarations_of_whole (hname : name.token = .word w)
    (hequals : atSign '=' (skipDeclaredType rest) = true)
    (hvalue : (expression fin inner (skipDeclaredType rest).tail).IsWhole e us) :
    declarations fin inner (name :: rest) = .declare w e :: declarationEnd fin inner us := by
  obtain ⟨_, hvalue⟩ := hvalue
  rw [declarations]
  simp only [hname, hequals, if_true, hvalue]

end Declare

variable (hinner : ∀ s s', s.Alike s' → (inner s).Refines (inner' s'))
include hinner

/-- **An expression** has no value, or it is read to its end in both lists.

**Proof sketch.** An expression that was cut short has no value (`areSound`). One that was read to
its end is given by the rules, so that the rules give one from the other list (`reads_erases`),
which the readers find (`expression_isWhole_iff`). -/
theorem expression_erases (fin fin' : TextEnd) (h : Erases [] [] .outside ts ts') :
    (∃ e, expression fin inner ts = .cut e ∧ e.Fails) ∨
      ∃ e e' us us', (expression fin inner ts).IsWhole e us ∧
        (expression fin' inner' ts').IsWhole e' us' ∧ e.Refines e' ∧
        (Erases [] [] .outside us us' ∨ IsStuck us) := by
  have hsound := (areSound fin inner ts).expression
  cases hr : expression fin inner ts with
  | cut e =>
    rw [hr] at hsound
    exact .inl ⟨e, rfl, hsound⟩
  | whole e us hshort =>
    rw [hr] at hsound
    obtain ⟨_, us', hreads', hnode, hafter⟩ :=
      reads_erases hinner (.inl ⟨rfl, rfl⟩) hsound h (Nat.zero_le _)
    obtain ⟨e', rfl, he⟩ := hnode.exists_expr
    exact .inr ⟨e, e', us, us', ⟨hshort, rfl⟩, (expression_isWhole_iff fin').2 hreads', he, hafter⟩

/-- Behind a `return` the same value is returned. -/
lemma result_erases (h : Erases [] [] .outside ts ts') :
    StatementsRefine
      (if ts = [] ∨ atSign ';' ts ∨ atSign '\x7d' ts then [.result (.constant none)]
        else [.result (expression fin inner ts).tree])
      (if ts' = [] ∨ atSign ';' ts' ∨ atSign '\x7d' ts' then [.result (.constant none)]
        else [.result (expression fin' inner' ts').tree]) := by
  have hends : (ts' = [] ∨ atSign ';' ts' = true ∨ atSign '\x7d' ts' = true) ↔
      (ts = [] ∨ atSign ';' ts = true ∨ atSign '\x7d' ts = true) := by
    rw [h.eq_nil_iff, atSign_erases (.inl ⟨rfl, rfl⟩) h, atSign_erases (.inl ⟨rfl, rfl⟩) h]
  split
  · next hend =>
    rw [if_pos (hends.2 hend)]
    exact .refl _
  · next hnot =>
    rw [if_neg (mt hends.1 hnot)]
    refine .result ?_
    rcases expression_erases hinner fin fin' h with
      ⟨e, hcut, hfails⟩ | ⟨e, e', us, us', ⟨_, hwhole⟩, ⟨_, hwhole'⟩, he, -⟩
    · rw [hcut]
      exact fun scope v hv => absurd hv (hfails scope v)
    · rw [hwhole, hwhole']
      exact he

/-! ## Statements one by one -/

variable {n : Nat} (ih : ∀ us us', us.length < n → Erases [] [] .outside us us' →
  StatementsRefine (statements fin inner us) (statements fin' inner' us'))
include ih

omit hinner in
/-- What stands behind a statement ends in the same value. -/
lemma statementEnd_erases (h : Erases [] [] .outside ts ts' ∨ IsStuck ts) (hn : ts.length < n) :
    StatementsRefine (statementEnd fin inner ts) (statementEnd fin' inner' ts') := by
  rcases h with h | h
  swap
  · exact .of_fails (statementEnd_fails h)
  cases ts with
  | nil =>
    obtain rfl := h.eq_of_behind
    rw [statementEnd, statementEnd]
    exact .refl _
  | cons t rest =>
    obtain ⟨t', rest', rfl, halike, -⟩ := h.exists_cons (Nat.zero_le _)
    by_cases ht : IsPunct ';' t
    · obtain ⟨_, _, ⟨⟩, -, hrest⟩ := h.exists_of_not_word ht.ne_word (Nat.zero_le _)
      rw [statementEnd_of_semicolon ht, statementEnd_of_semicolon ((halike.isPunct_iff _).2 ht)]
      exact ih _ _ (Nat.lt_of_succ_lt hn) hrest
    rw [statementEnd_of_not_semicolon ht,
      statementEnd_of_not_semicolon (mt (halike.isPunct_iff _).1 ht), headWord?_erases h]
    by_cases hstarts : (headWord? (t :: rest)).any startsStatement = true
    · rw [if_pos hstarts, if_pos hstarts]
      exact ih _ _ hn h
    · rw [if_neg hstarts]
      exact .of_fails (statementsFail_cut _ _)

/-- An expression statement, and what stands behind it. -/
lemma expressionStatement_erases (h : Erases [] [] .outside ts ts') (hn : ts.length ≤ n) :
    StatementsRefine (expressionStatement fin inner ts) (expressionStatement fin' inner' ts') := by
  rw [expressionStatement, expressionStatement]
  rcases expression_erases hinner fin fin' h with
    ⟨e, hcut, hfails⟩ | ⟨e, e', us, us', ⟨hshort, hwhole⟩, ⟨_, hwhole'⟩, he, hbehind⟩
  · rw [hcut]
    exact .of_fails (hfails.evaluate _)
  · rw [hwhole, hwhole']
    exact .evaluate he (statementEnd_erases ih hbehind (Nat.lt_of_lt_of_le hshort hn))

omit hinner in
/-- What stands behind a declared name ends in the same value, if more declarations do. -/
lemma declarationEnd_erases
    (hmore : ∀ us us', us.length < ts.length → Erases [] [] .outside us us' →
      StatementsRefine (declarations fin inner us) (declarations fin' inner' us'))
    (h : Erases [] [] .outside ts ts' ∨ IsStuck ts) (hn : ts.length < n) :
    StatementsRefine (declarationEnd fin inner ts) (declarationEnd fin' inner' ts') := by
  cases hcomma : atSign ',' ts with
  | true =>
    obtain ⟨t, rest, rfl, ht⟩ := exists_of_atSign hcomma
    obtain ⟨t', rest', rfl, halike, hrest⟩ :=
      exists_of_erases_or_isStuck h ht.ne_word (Nat.zero_le _)
    rw [declarationEnd_of_comma ht, declarationEnd_of_comma ((halike.isPunct_iff _).2 ht)]
    exact hmore _ _ (Nat.lt_succ_self _) hrest
  | false =>
    rw [declarationEnd_of_not_comma hcomma]
    rcases h with h | h
    · rw [declarationEnd_of_not_comma ((atSign_erases (.inl ⟨rfl, rfl⟩) h ',').trans hcomma)]
      exact statementEnd_erases ih (.inl h) hn
    · exact .of_fails (statementEnd_fails h)

/-- **Declarations** end in the same value without their annotations.

**Proof sketch.** Strong induction on the number of tokens. By what stands in front: a name is
declared, and behind its annotation, kept or not, both lists go on alike; a name with an annotation
that is erased has the equals sign behind it in both lists; every other token is refused in both. -/
theorem declarations_erases {stage : Stage} (h : Erases [] [] stage ts ts') (hn : ts.length < n) :
    StatementsRefine (declarations fin inner ts) (declarations fin' inner' ts') := by
  induction hlength : ts.length using Nat.strongRecOn generalizing stage ts ts' with
  | _ length more =>
  subst hlength
  -- what stands behind the first name and its annotation
  have hbehind : ∀ us us', us.length < ts.length →
      (Erases [] [] .outside us us' ∨ IsStuck us) →
      StatementsRefine (declarationEnd fin inner us) (declarationEnd fin' inner' us') := by
    intro us us' hus herases
    refine declarationEnd_erases ih (fun vs vs' hvs hvs' => ?_) herases (Nat.lt_trans hus hn)
    exact more _ (Nat.lt_trans hvs hus) hvs' (Nat.lt_trans (Nat.lt_trans hvs hus) hn) rfl
  -- the first name with its annotation, up to which both lists have been read
  have hdeclare : ∀ {name name' : Lexeme} {w : String} {rest rest' : List Lexeme},
      name.token = .word w → name'.token = .word w → rest.length < ts.length →
      (Erases [] [] .outside (skipDeclaredType rest) (skipDeclaredType rest') ∨
        IsStuck (skipDeclaredType rest)) →
      StatementsRefine (declarations fin inner (name :: rest))
        (declarations fin' inner' (name' :: rest')) := by
    intro name name' w rest rest' hname hname' hrest herases
    have hskip := Nat.lt_of_le_of_lt (length_skipDeclaredType_le rest) hrest
    cases hequals : atSign '=' (skipDeclaredType rest) with
    | true =>
      obtain ⟨hequals', hvalue⟩ := tail_erases herases hequals
      rcases expression_erases hinner fin fin' hvalue with
        ⟨e, hcut, hfails⟩ | ⟨e, e', vs, vs', hwhole, hwhole', he, hvs⟩
      · rw [declarations_of_cut hname hequals hcut]
        exact .of_fails (hfails.declare _ _)
      · rw [declarations_of_whole hname hequals hwhole,
          declarations_of_whole hname' hequals' hwhole']
        obtain ⟨hshort, -⟩ := hwhole
        refine .declare he (hbehind _ _ ?_ hvs) _
        simp only [List.length_tail] at hshort
        omega
    | false =>
      rw [declarations_of_no_value hname hequals]
      rcases herases with herases | hstuck
      · have hequals' := (atSign_erases (.inl ⟨rfl, rfl⟩) herases '=').trans hequals
        rw [declarations_of_no_value hname' hequals']
        exact .declare (.refl _) (hbehind _ _ hskip (.inl herases)) _
      · rw [declarationEnd_of_not_comma (hstuck.atSign_eq_false _)]
        exact .of_fails ((statementEnd_fails hstuck).declare _ _)
  cases h with
  | behind =>
    rw [declarations]
    exact .of_fails (statementsFail_cut _ _)
  | @keep t t' rest rest' halike hrest =>
    by_cases hword : ∃ w, t.token = .word w
    · obtain ⟨w, hw⟩ := hword
      exact hdeclare hw (halike.word hw) (Nat.lt_succ_self _) (skipDeclaredType_erases hrest)
    · exact .of_fails (declarations_fails (not_exists.1 hword) rest)
  | @keyword t t' rest rest' w halike hw _ hrest =>
    -- a declarator that is declared itself, with a word behind it
    have hcolon := hrest.isStuck.atSign_eq_false ':'
    refine hdeclare hw (halike.word hw) (Nat.lt_succ_self _) (.inr ?_)
    rw [skipDeclaredType_of_not_colon hcolon]
    exact hrest.isStuck
  | @typed name name' colon equals equals' type us us' w hname hname' _ hcolon
      htype hequals hequals' hus =>
    refine hdeclare hname hname' (Nat.lt_succ_self _) (.inl ?_)
    rw [skipDeclaredType_of_type hcolon htype hequals,
      skipDeclaredType_of_not_colon (hequals'.atSign_eq_false (by decide) _)]
    exact .keep (alike_of_isPunct hequals hequals') hus

omit ih in
/-- **A body without some of its annotations** ends in the same value.

**Proof sketch.** Strong induction on the number of tokens. The first tokens are alike, so both
bodies take the same branch: an expression, declarations, the result, or more statements behind a
semicolon or behind `export`. Only behind a declarator may an annotation have been erased. -/
theorem statements_erases (fin fin' : TextEnd) (h : Erases [] [] .outside ts ts') :
    StatementsRefine (statements fin inner ts) (statements fin' inner' ts') := by
  induction hn : ts.length using Nat.strongRecOn generalizing ts ts' with
  | _ n ih =>
  subst hn
  have ih' : ∀ us us', us.length < ts.length → Erases [] [] .outside us us' →
      StatementsRefine (statements fin inner us) (statements fin' inner' us') :=
    fun us us' hus hus' => ih _ hus hus' rfl
  cases ts with
  | nil =>
    obtain rfl := h.eq_of_behind
    rw [statements, statements]
    exact .refl _
  | cons t rest =>
    obtain ⟨t', rest', rfl, halike, hrest⟩ := h.exists_cons (Nat.zero_le _)
    have hexpression := expressionStatement_erases hinner ih' h le_rfl
    by_cases hsemicolon : IsPunct ';' t
    · obtain ⟨_, _, ⟨⟩, -, hrest⟩ := h.exists_of_not_word hsemicolon.ne_word (Nat.zero_le _)
      rw [statements_of_semicolon hsemicolon,
        statements_of_semicolon ((halike.isPunct_iff _).2 hsemicolon)]
      exact ih' _ _ (Nat.lt_succ_self _) hrest
    by_cases hword : ∃ w, t.token = .word w
    swap
    · rw [statements_of_not_word hsemicolon (not_exists.1 hword),
        statements_of_not_word (mt (halike.isPunct_iff _).1 hsemicolon)
          fun w => mt (halike.word_iff w).1 (not_exists.1 hword w)]
      exact hexpression
    obtain ⟨w, hw⟩ := hword
    rw [statements_of_word hw, statements_of_word (halike.word hw)]
    by_cases hdeclarator : isDeclarator w = true
    · rw [if_pos hdeclarator, if_pos hdeclarator]
      rcases hrest with hrest | ⟨-, hrest⟩
      · exact declarations_erases hinner ih' hrest (Nat.lt_succ_self _)
      · exact declarations_erases hinner ih' hrest (Nat.lt_succ_self _)
    have hrest : Erases [] [] .outside rest rest' := by
      refine hrest.resolve_right ?_
      rintro ⟨⟨w', hw', hdeclarator'⟩, -⟩
      obtain rfl : w = w' := by simpa [hw] using hw'
      exact hdeclarator hdeclarator'
    rw [if_neg hdeclarator, if_neg hdeclarator]
    by_cases hreturn : w = "return"
    · rw [if_pos hreturn, if_pos hreturn]
      exact result_erases hinner hrest
    rw [if_neg hreturn, if_neg hreturn]
    by_cases hexport : w = "export"
    · rw [if_pos hexport, if_pos hexport, headWord?_erases hrest]
      split
      · exact ih' _ _ (Nat.lt_succ_self _) hrest
      · exact .of_fails (statementsFail_cut _ _)
    rw [if_neg hexport, if_neg hexport]
    by_cases hrefused : w ∈ refusedStatements
    · rw [if_pos hrefused]
      exact .of_fails (statementsFail_cut _ _)
    · rw [if_neg hrefused, if_neg hrefused]
      exact hexpression

end Statements

end Reader

end CardTable.Script
