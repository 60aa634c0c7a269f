import CardTable.Proofs.Script.Interpreter.Expressions
import CardTable.Proofs.Script.Grammar.Statements

set_option autoImplicit false

/-!
# Runs of bodies

The interpreter runs the statements of a body one by one, and a body is evaluated by reading its
statements and running them afterwards. Both end in the same way, for every body and all bindings.
Nothing is asked of the body, so that malformed ones are no exception. A checked run has no result
just where the evaluation overflows, which it does only if a binding holds the least whole number.

## Main definitions

* `CardTable.Script.Interpreter.AreRun` — the runs at one place give what the statements there give.

## Main results

* `CardTable.Script.Interpreter.areRun` — the runs give what the statements give, at every place.
* `CardTable.Script.Interpreter.evaluateBody_follows` — a body is run as it is evaluated.
* `CardTable.Script.Interpreter.evaluateBody_eq` — a checked run gives what the evaluation gives.
* `CardTable.Script.Interpreter.evaluate_ne_overflow` — without the least whole number in a binding,
  nothing overflows.
* `CardTable.Script.Interpreter.evaluateBody_ends` — every run ends, with a value or with a failure
  that is reported.
-/

namespace CardTable.Script.Interpreter

open Cursor (Kind Tok)

section Statements

variable {ts us : List Lexeme} {stop : Nat} {broken asked checked : Bool} {scope : Scope}
  {inner : Substitution → Expr} {Q : Failure → Prop}

/-- The runs at `us` give what the statements give that are read there. -/
structure AreRun (asked checked : Bool) (inner : Substitution → Expr) (Q : Failure → Prop)
    (ts : List Lexeme) (stop : Nat) (broken : Bool) (us : List Lexeme) : Prop where
  statements : ∀ scope, Scope.Spares asked scope →
    ((tokensOf ts stop broken).run checked scope (place ts us)).Follows (fun a b => a = b) Q
      (Script.run scope (Reader.statements (.of stop ts) inner us))
  declarations : ∀ scope, Scope.Spares asked scope →
    ((tokensOf ts stop broken).declaration checked scope (place ts us) >>= fun a =>
      (tokensOf ts stop broken).run checked a.1 a.2).Follows (fun a b => a = b) Q
        (Script.run scope (Reader.declarations (.of stop ts) inner us))

/-- What is behind a declared type is an end of the tokens. -/
lemma isSuffix_skipDeclaredType (us : List Lexeme) : skipDeclaredType us <:+ us := by
  unfold skipDeclaredType
  split
  · exact (Reader.isSuffix_skipType _ _ _ _).trans (List.tail_suffix us)
  · exact List.suffix_refl us

/-- The annotation of a declared name is skipped. -/
lemma skipDeclaredType_place (h : us <:+ ts) {α : Type} (k : Nat → Run α) :
    (do
      let (colon, pos) ← eat (tokensOf ts stop broken) ':' (place ts us)
      let pos ← if colon then (tokensOf ts stop broken).skipType (· == '=') 0 false pos
        else pure pos
      k pos) = k (place ts (skipDeclaredType us)) := by
  rw [eat_place h, skipDeclaredType]
  split
  · rw [pure_bind]
    dsimp only
    rw [if_pos rfl, skipType_place (isSuffix_tail h), pure_bind]
  · rw [pure_bind]
    rfl

/-- The end of a statement, and what is behind it. -/
lemma endStatement_follows (hQ : Reports Q (.of stop ts) ts) (h : us <:+ ts)
    (hrun : ∀ vs, vs <:+ ts → vs.length ≤ us.length →
      ((tokensOf ts stop broken).run checked scope (place ts vs)).Follows (fun a b => a = b) Q
        (Script.run scope (Reader.statements (.of stop ts) inner vs))) :
    (endStatement (tokensOf ts stop broken) (place ts us) >>= fun pos =>
      (tokensOf ts stop broken).run checked scope pos).Follows (fun a b => a = b) Q
        (Script.run scope (Reader.statementEnd (.of stop ts) inner us)) := by
  have hself := hrun us h (Nat.le_refl _)
  rw [endStatement, eat_place h]
  cases us with
  | nil =>
    rw [if_neg (by simp [atSign]), pure_bind]
    dsimp only
    rw [if_neg (by simp), peek_place h, pure_bind]
    rw [Reader.statements] at hself
    rw [Reader.statementEnd]
    exact hself
  | cons t rest =>
  by_cases hsemicolon : Reader.IsPunct ';' t
  · rw [if_pos (Reader.atSign_cons_iff.2 hsemicolon), pure_bind,
      Reader.statementEnd_of_semicolon hsemicolon]
    exact hrun rest (isSuffix_tail h) (Nat.le_succ _)
  rw [if_neg (mt Reader.atSign_cons_iff.1 hsemicolon), pure_bind,
    Reader.statementEnd_of_not_semicolon hsemicolon]
  dsimp only
  rw [if_neg (by simp), peek_place h, pure_bind]
  have hrefuse : (refuse (tokensOf ts stop broken) (place ts (t :: rest)) .behindExpression >>=
      fun pos => (tokensOf ts stop broken).run checked scope pos).Follows (fun a b => a = b) Q
        (Script.run scope [.cut ⟨t.offset, .behindExpression⟩]) := by
    rw [refuse_place h, Run.fail_bind, Script.run]
    exact Run.follows_halt (hQ.fault _ rfl)
  obtain ⟨token, offset, afterBreak, source⟩ := t
  cases token with
  | word w =>
    dsimp only [kindOf, Kind.of]
    by_cases hstarts : startsStatement w
    · rw [if_pos hstarts, if_pos (by simpa [headWord?] using hstarts), pure_bind]
      exact hself
    · rw [if_neg hstarts, if_neg (by simpa [headWord?] using hstarts)]
      exact hrefuse
  | _ => exact hrefuse

/-- The end of a declared name, and what is behind it. -/
lemma declarationEnd_follows (hQ : Reports Q (.of stop ts) ts) {behind : List Lexeme}
    (hbehind : behind <:+ ts)
    (ih : ∀ vs, vs <:+ ts → vs.length ≤ behind.length → AreRun asked checked inner Q ts stop broken vs)
    (hscope : Scope.Spares asked scope) :
    ((do
      let (comma, pos) ← eat (tokensOf ts stop broken) ',' (place ts behind)
      if comma then (tokensOf ts stop broken).declaration checked scope pos
      else return (scope, ← endStatement (tokensOf ts stop broken) pos)) >>= fun a =>
        (tokensOf ts stop broken).run checked a.1 a.2).Follows (fun a b => a = b) Q
          (Script.run scope (Reader.declarationEnd (.of stop ts) inner behind)) := by
  rw [eat_place hbehind]
  cases hcomma : atSign ',' behind with
  | true =>
    obtain ⟨t, rest, rfl, ht⟩ := Reader.exists_of_atSign hcomma
    rw [if_pos rfl, pure_bind, Reader.declarationEnd_of_comma ht]
    exact (ih rest (isSuffix_tail hbehind) (Nat.le_succ _)).declarations scope hscope
  | false =>
    rw [if_neg (by simp), pure_bind, Reader.declarationEnd_of_not_comma hcomma]
    dsimp only
    rw [if_neg (by simp), bind_assoc]
    exact endStatement_follows hQ hbehind fun vs hvs hlength =>
      (ih vs hvs hlength).statements scope hscope

/-- Only behind the last token is there none. -/
lemma kindOf_eq_finish (h : kindOf us = .finish) : us = [] := by
  cases us with
  | nil => rfl
  | cons t rest =>
    obtain ⟨token, _, _, _⟩ := t
    cases token <;> cases h

/-- What a body returns. -/
lemma result_follows
    (hexpression : IsEvaluated scope asked Q ts
      ((tokensOf ts stop broken).expression checked scope (place ts us))
      (Reader.expression (.of stop ts) inner us)) :
    (match kindOf us with
      | .finish | .sign (.punct ';') | .sign (.punct '\x7d') => pure none
      | _ => do
        return (← (tokensOf ts stop broken).expression checked scope (place ts us)).1).Follows
        (fun a b => a = b) Q
          (Script.run scope (if us = [] ∨ atSign ';' us ∨ atSign '\x7d' us then
            [.result (.constant none)]
            else [.result (Reader.expression (.of stop ts) inner us).tree])) := by
  by_cases hends : us = [] ∨ atSign ';' us ∨ atSign '\x7d' us
  · rw [if_pos hends, Script.run, Expr.eval]
    rcases hends with rfl | hsign | hsign
    · exact Run.follows_pure rfl
    all_goals
      obtain ⟨⟨_, _, _, _⟩, rest, rfl, ht⟩ := Reader.exists_of_atSign hsign
      obtain rfl := ht
      exact Run.follows_pure rfl
  rw [if_neg hends, Script.run]
  simp only [not_or, ← isPunct_kindOf] at hends
  split
  case h_1 heq => exact absurd (kindOf_eq_finish heq) hends.1
  case h_2 heq => exact absurd (heq ▸ rfl) hends.2.1
  case h_3 heq => exact absurd (heq ▸ rfl) hends.2.2
  cases hvalue : Reader.expression (.of stop ts) inner us with
  | cut e =>
    rw [hvalue] at hexpression
    exact hexpression.stop _
  | whole e behind hbehind =>
    rw [hvalue] at hexpression
    rw [Reading.tree, ← bind_pure (e.eval scope)]
    refine hexpression.2.bind ?_
    rintro _ v ⟨rfl, -⟩
    exact Run.follows_pure rfl

/-- A declaration behind its `export`. -/
lemma export_follows (hQ : Reports Q (.of stop ts) ts) (h : us <:+ ts)
    (hrun : ((tokensOf ts stop broken).run checked scope (place ts us)).Follows (fun a b => a = b) Q
      (Script.run scope (Reader.statements (.of stop ts) inner us))) :
    (match kindOf us with
      | .word w => if isDeclarator w then (tokensOf ts stop broken).run checked scope (place ts us)
        else refuse (tokensOf ts stop broken) (place ts us) .bareExport
      | _ => refuse (tokensOf ts stop broken) (place ts us) .bareExport).Follows
        (fun a b => a = b) Q
          (Script.run scope (if (headWord? us).any isDeclarator then
            Reader.statements (.of stop ts) inner us
            else [.cut ⟨(TextEnd.of stop ts).offsetOf us, .bareExport⟩])) := by
  have hrefuse : (refuse (tokensOf ts stop broken) (place ts us) .bareExport).Follows
      (fun a b => a = b) Q
      (Script.run scope [.cut ⟨(TextEnd.of stop ts).offsetOf us, .bareExport⟩]) := by
    rw [refuse_place h, Script.run]
    exact Run.follows_halt (hQ.fault _ rfl)
  cases us with
  | nil => exact hrefuse
  | cons t rest =>
  obtain ⟨token, offset, afterBreak, source⟩ := t
  cases token with
  | word w =>
    dsimp only [kindOf, Kind.of]
    rw [headWord?, Option.any_some]
    by_cases hdeclarator : isDeclarator w
    · rw [if_pos hdeclarator, if_pos hdeclarator]
      exact hrun
    · rw [if_neg hdeclarator, if_neg hdeclarator]
      exact hrefuse
  | _ => exact hrefuse

variable (hQ : Reports Q (.of stop ts) ts)
  (hexpression : ∀ scope, Scope.Spares asked scope → ∀ us, us <:+ ts →
    IsEvaluated scope asked Q ts
      ((tokensOf ts stop broken).expression checked scope (place ts us))
      (Reader.expression (.of stop ts) inner us))

include hQ hexpression

/-- An expression as a statement, and what is behind it. -/
lemma expressionStatement_follows (h : us <:+ ts)
    (ih : ∀ vs, vs <:+ ts → vs.length < us.length → AreRun asked checked inner Q ts stop broken vs)
    (hscope : Scope.Spares asked scope) :
    ((tokensOf ts stop broken).expression checked scope (place ts us) >>= fun a =>
      endStatement (tokensOf ts stop broken) a.2 >>= fun pos =>
        (tokensOf ts stop broken).run checked scope pos).Follows (fun a b => a = b) Q
          (Script.run scope (Reader.expressionStatement (.of stop ts) inner us)) := by
  have hrun := hexpression scope hscope us h
  rw [Reader.expressionStatement]
  split
  · next e hcut =>
    rw [hcut] at hrun
    rw [Script.run]
    exact hrun.bind fun _ _ => False.elim
  · next e behind hshort hwhole =>
    rw [hwhole] at hrun
    obtain ⟨hbehind, hrun⟩ := hrun
    rw [Script.run]
    refine hrun.bind ?_
    rintro _ v ⟨rfl, -⟩
    exact endStatement_follows hQ hbehind fun vs hvs hlength =>
      (ih vs hvs (Nat.lt_of_le_of_lt hlength hshort)).statements scope hscope

/-- A declaration, and what is behind it. -/
lemma declarations_follow (h : us <:+ ts)
    (ih : ∀ vs, vs <:+ ts → vs.length < us.length → AreRun asked checked inner Q ts stop broken vs)
    (hscope : Scope.Spares asked scope) :
    ((tokensOf ts stop broken).declaration checked scope (place ts us) >>= fun a =>
      (tokensOf ts stop broken).run checked a.1 a.2).Follows (fun a b => a = b) Q
        (Script.run scope (Reader.declarations (.of stop ts) inner us)) := by
  rw [Tokens.declaration, advance_place h, pure_bind]
  cases us with
  | nil =>
    rw [Reader.declarations]
    dsimp only [kindOf]
    rw [refuse_place (isSuffix_tail h), Run.fail_bind, Script.run]
    exact Run.follows_halt (hQ.fault _ rfl)
  | cons t rest =>
  have hrest : rest <:+ ts := isSuffix_tail h
  have hrefuse : ((refuse (tokensOf ts stop broken) (place ts rest) .destructuring :
      Run (Scope × Nat)) >>= fun a =>
        (tokensOf ts stop broken).run checked a.1 a.2).Follows (fun a b => a = b) Q
        (Script.run scope [.cut ⟨(TextEnd.of stop ts).offsetOf rest, .destructuring⟩]) := by
    rw [refuse_place hrest, Run.fail_bind, Script.run]
    exact Run.follows_halt (hQ.fault _ rfl)
  obtain ⟨token, offset, afterBreak, source⟩ := t
  cases token with
  | word name =>
    dsimp only [kindOf, Kind.of, List.tail_cons]
    have hskip : skipDeclaredType rest <:+ ts := (isSuffix_skipDeclaredType rest).trans hrest
    have hshort := length_skipDeclaredType_le rest
    have hlater : ∀ behind, behind <:+ ts → behind.length ≤ rest.length → ∀ vs, vs <:+ ts →
        vs.length ≤ behind.length → AreRun asked checked inner Q ts stop broken vs :=
      fun behind _ hbehind vs hvs hlength =>
        ih vs hvs (Nat.lt_succ_of_le (Nat.le_trans hlength hbehind))
    rw [skipDeclaredType_place hrest, eat_place hskip]
    cases hequals : atSign '=' (skipDeclaredType rest) with
    | false =>
      rw [if_neg (by simp), pure_bind, Reader.declarations_of_no_value rfl hequals, Script.run,
        Expr.eval, ok_bind]
      exact declarationEnd_follows hQ hskip (hlater _ hskip hshort)
        (hscope.insert name spares?_none)
    | true =>
      obtain ⟨u, more, hmore, -⟩ := Reader.exists_of_atSign hequals
      have htail : (skipDeclaredType rest).tail <:+ ts := isSuffix_tail hskip
      have hrun := hexpression scope hscope _ htail
      rw [if_pos rfl, pure_bind]
      dsimp only
      rw [if_pos rfl]
      cases hvalue : Reader.expression (.of stop ts) inner (skipDeclaredType rest).tail with
      | cut e =>
        rw [hvalue] at hrun
        rw [Reader.declarations_of_cut rfl hequals hvalue, Script.run]
        simp only [bind_assoc]
        exact hrun.bind fun _ _ => False.elim
      | whole e behind hbehind =>
        rw [hvalue] at hrun
        rw [Reader.declarations_of_whole rfl hequals ⟨hbehind, hvalue⟩, Script.run]
        simp only [bind_assoc]
        refine hrun.2.bind ?_
        rintro _ v ⟨rfl, hv⟩
        have hlength : behind.length ≤ rest.length := by
          rw [List.length_tail] at hbehind
          omega
        have hend := declarationEnd_follows hQ hrun.1 (hlater _ hrun.1 hlength)
          (hscope.insert name hv)
        simpa only [bind_assoc] using hend
  | _ =>
    rw [Reader.declarations]
    exact hrefuse

/-- The statements of a body. -/
lemma statements_follow (h : us <:+ ts)
    (ih : ∀ vs, vs <:+ ts → vs.length < us.length → AreRun asked checked inner Q ts stop broken vs)
    (hscope : Scope.Spares asked scope) :
    ((tokensOf ts stop broken).run checked scope (place ts us)).Follows (fun a b => a = b) Q
      (Script.run scope (Reader.statements (.of stop ts) inner us)) := by
  have hstatement := expressionStatement_follows hQ hexpression h ih hscope
  rw [Tokens.run, peek_place h, pure_bind]
  cases us with
  | nil =>
    rw [Reader.statements, Script.run]
    exact Run.follows_pure rfl
  | cons t rest =>
  have hrest : rest <:+ ts := isSuffix_tail h
  have hlater := ih rest hrest (Nat.lt_succ_self _)
  obtain ⟨token, offset, afterBreak, source⟩ := t
  cases token with
  | sign s =>
    by_cases hsemicolon : s = .punct ';'
    · subst hsemicolon
      rw [Reader.statements_of_semicolon rfl]
      dsimp only [kindOf, Kind.of]
      rw [next_place h, pure_bind]
      exact hlater.statements scope hscope
    · rw [Reader.statements_of_not_word (fun ht => hsemicolon (Token.sign.inj ht))
        (by simp)]
      dsimp only [kindOf, Kind.of]
      split
      case h_2 heq => exact absurd (Kind.sign.inj heq) hsemicolon
      case h_4 => exact hstatement
      all_goals next heq => cases heq
  | word w =>
    rw [Reader.statements_of_word rfl]
    dsimp only [kindOf, Kind.of]
    by_cases hdeclarator : isDeclarator w
    · rw [if_pos hdeclarator, if_pos hdeclarator, next_place h, pure_bind]
      exact hlater.declarations scope hscope
    rw [if_neg hdeclarator, if_neg hdeclarator]
    by_cases hreturn : w = "return"
    · rw [if_pos hreturn, if_pos hreturn, next_place h, pure_bind, List.tail_cons,
        peek_place hrest, pure_bind]
      exact result_follows (hexpression scope hscope rest hrest)
    rw [if_neg hreturn, if_neg hreturn]
    by_cases hexport : w = "export"
    · rw [if_pos hexport, if_pos hexport, next_place h, pure_bind, List.tail_cons,
        peek_place hrest, pure_bind]
      exact export_follows hQ hrest (hlater.statements scope hscope)
    rw [if_neg hexport, if_neg hexport]
    by_cases hrefused : w ∈ Reader.refusedStatements
    · rw [if_pos hrefused, if_pos hrefused, refuse_place h, Script.run]
      exact Run.follows_halt (hQ.fault _ rfl)
    rw [if_neg hrefused, if_neg hrefused]
    exact hstatement
  | _ =>
    rw [Reader.statements_of_not_word (by simp [Reader.IsPunct]) (by simp)]
    exact hstatement

variable (broken) in
/-- **The runs give what the statements give**, at every place of a text. -/
theorem areRun (us : List Lexeme) (h : us <:+ ts) : AreRun asked checked inner Q ts stop broken us := by
  induction hn : us.length using Nat.strongRecOn generalizing us with
  | _ n ih =>
  subst hn
  have ih' : ∀ vs, vs <:+ ts → vs.length < us.length → AreRun asked checked inner Q ts stop broken vs :=
    fun vs hvs hlength => ih vs.length hlength vs hvs rfl
  exact {
    statements := fun _ => statements_follow hQ hexpression h ih'
    declarations := fun _ => declarations_follow hQ hexpression h ih' }

end Statements

/-! ## Bodies -/

/-- **A body** is run as it is evaluated, whatever is asked of the failures that are reported.

**Proof sketch.** The body is cut into its tokens, the stretches of the templates follow what their
expressions give (`substitution_follows`), hence so do all expressions (`arePerformed`), and then
the statements (`areRun`). -/
theorem evaluateBody_follows {asked checked : Bool} {bindings : List (String × Value)}
    {body : String} {Q : Failure → Prop}
    (hbindings : ∀ binding ∈ bindings, Spares asked binding.2)
    (hoverflow : SettlesOverflow asked checked Q)
    (hQ : ∀ base src ts, Cursor.IsStretch (0, body.toList) (base, src) →
      lexemes (locate base src) = .ok ts → Reports Q (.of (base + Text.byteCount src) ts) ts)
    (hfault : ∀ f : Fault, f.problem.isUnexpected = false → Q (.fault f)) :
    (evaluateBody checked bindings body).Follows (fun a b => a = b) Q (evaluate bindings body) := by
  obtain ⟨broken, htoks⟩ := Cursor.exists_tokenize body.toList 0
  rw [Nat.zero_add] at htoks
  rw [evaluateBody, htoks, evaluate, bodyStatements]
  cases hts : lexemes (locate 0 body.toList) with
  | error f => exact Run.follows_halt (hfault f (isLexical_lexemes _ f hts))
  | ok ts =>
    have hends := hQ 0 body.toList ts .self hts
    rw [Nat.zero_add] at hends
    have hscope := spares_scopeOf hbindings
    have hinner : ∀ scope, Scope.Spares asked scope → ∀ t ∈ ts, ∀ head parts,
        t.token = .template head parts → ∀ part ∈ parts,
          (substitution checked scope (Cursor.start part.1) (chars part.1.source)).Follows
            (fun a b => a = b) Q ((substitutionExpr part.1).eval scope) :=
      fun scope hscope t ht head parts htoken part hpart =>
        substitution_follows hscope hoverflow hQ hfault part.1
          (isPlaced_of_lexemes hts (isLocated_locate 0 _) ht htoken part hpart)
          (Cursor.IsStretch.self.of_lexemes hts ht htoken hpart)
    have hexpression : ∀ scope, Scope.Spares asked scope → ∀ us, us <:+ ts →
        IsEvaluated scope asked Q ts
          ((tokensOf ts (Text.byteCount body.toList) broken).expression checked scope (place ts us))
          (Reader.expression (.of (Text.byteCount body.toList) ts) substitutionExpr us) :=
      fun scope hscope us hus =>
        (arePerformed broken hends hoverflow hscope (hinner scope hscope) us hus).expression
    have hrun := (areRun broken hends hexpression ts (List.suffix_refl ts)).statements _ hscope
    rw [place_self] at hrun
    exact hrun.map (·.getD .null)

/-- Where an overflow is the only failure that is excluded, all others may be reported. -/
lemma reports_ne_overflow (fin : TextEnd) (ts : List Lexeme) :
    Reports (· ≠ .overflow) fin ts where
  sign := fun _ _ _ _ => nofun
  finish := nofun
  other := by
    rintro _ hf rfl
    cases hf

/-- **A checked run gives what the evaluation gives**, for all bindings: its value or its failure.
Where the negation of the least whole number overflows, the run stops without a result.

**Proof sketch.** The run follows the evaluation (`evaluateBody_follows`). Nothing is asked of the
bindings, and of the failures only that an overflow may stop the run. -/
theorem evaluateBody_eq (bindings : List (String × Value)) (body : String) :
    evaluateBody true bindings body = Run.ofExcept (evaluate bindings body) := by
  have hspares : ∀ binding ∈ bindings, Spares false binding.2 := fun _ _ => nofun
  have hoverflow : SettlesOverflow false true fun _ => True := .inr ⟨rfl, trivial⟩
  exact (evaluateBody_follows hspares hoverflow
    (fun _ _ _ _ _ => ⟨fun _ _ _ _ => trivial, trivial, fun _ _ => trivial⟩)
    fun _ _ => trivial).eq_ofExcept

/-- **No overflow**: a body whose bindings do not hold the least whole number negates only numbers
whose negatives fit. -/
theorem evaluate_ne_overflow {bindings : List (String × Value)} (body : String)
    (hbindings : ∀ binding ∈ bindings, ¬ leastWhole.IsPart binding.2) :
    evaluate bindings body ≠ .error .overflow := by
  have hspares : ∀ binding ∈ bindings, Spares true binding.2 :=
    fun binding hbinding _ => hbindings binding hbinding
  have hoverflow : SettlesOverflow true true (· ≠ .overflow) := .inl rfl
  have hrun : (evaluateBody true bindings body).Follows (fun a b => a = b) (· ≠ .overflow)
      (evaluate bindings body) := evaluateBody_follows hspares hoverflow
    (fun base src ts _ _ => reports_ne_overflow (.of (base + Text.byteCount src) ts) ts)
    fun f _ => nofun
  intro h
  rw [h] at hrun
  exact hrun.2 rfl

/-- **Every run ends, and none crashes**: if no binding holds the least whole number, which has no
negative in its word, a body ends with its value or with its failure. No loop goes on for ever, no
token is looked up outside the tokens, no text is cut inside a character, and no count falls below
zero.

**Proof sketch.** The run gives what the evaluation gives (`evaluateBody_eq`), and the one failure
that stops a run without a report does not occur (`evaluate_ne_overflow`). -/
theorem evaluateBody_ends (bindings : List (String × Value)) (body : String)
    (hbindings : ∀ binding ∈ bindings, ¬ leastWhole.IsPart binding.2) :
    (evaluateBody true bindings body).Ends (fun v => evaluate bindings body = .ok v)
      (fun f => evaluate bindings body = .error f) := by
  have hoverflow := evaluate_ne_overflow body hbindings
  rw [evaluateBody_eq]
  cases hvalue : evaluate bindings body with
  | ok v => exact rfl
  | error f =>
    have hne : f ≠ .overflow := fun heq => hoverflow (heq ▸ hvalue)
    rw [Run.ofExcept, Run.halt_of_ne hne]
    exact rfl

/-- A template with a stretch behind a character of two bytes, and a negated binding in it. -/
theorem evaluateBody_ends_template :
    (evaluateBody true [("x", .num (.ofInt 5))] "return \x60é$\x7b-x\x7d\x60").Ends
      (fun v => evaluate [("x", .num (.ofInt 5))] "return \x60é$\x7b-x\x7d\x60" = .ok v)
      (fun f => evaluate [("x", .num (.ofInt 5))] "return \x60é$\x7b-x\x7d\x60" = .error f) := by
  refine evaluateBody_ends _ _ ?_
  rintro binding hbinding hpart
  obtain rfl := List.mem_singleton.1 hbinding
  cases hpart

end CardTable.Script.Interpreter
