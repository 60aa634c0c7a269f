import CardTable.Proofs.Script.Interpreter.Accesses
import CardTable.Proofs.Script.Interpreter.Literals

set_option autoImplicit false

/-!
# Runs of expressions

The runs at one place of a text do what the readers say there, as far as the runs at all later
places do. A run inside an expression begins further on, so that all of them do. The stretches of
templates are texts of their own, shorter than those they stand in, with tokens and an end of their
own.

## Main results

* `CardTable.Script.Interpreter.primary_performed`, `CardTable.Script.Interpreter.unary_performed`,
  `CardTable.Script.Interpreter.expression_performed` — the layers of an expression.
* `CardTable.Script.Interpreter.arePerformed` — the runs do what the readers say, at every place.
* `CardTable.Script.Interpreter.substitution_follows` — a stretch of a template is run as it is
  evaluated.
-/

namespace CardTable.Script.Interpreter

open Cursor (Kind Tok)

section Expressions

variable {ts us : List Lexeme} {stop : Nat} {broken asked checked : Bool} {scope : Scope}
  {inner : Substitution → Expr} {Q : Failure → Prop} {n : Nat}

/-! ## Casts and operators -/

/-- An expression with its casts. -/
theorem expression_performed (hQ : Reports Q (.of stop ts) ts)
    (hunary : IsEvaluated scope asked Q ts
      ((tokensOf ts stop broken).unary checked scope (place ts us))
      (Reader.unary (.of stop ts) inner us)) :
    IsEvaluated scope asked Q ts
      ((tokensOf ts stop broken).expression checked scope (place ts us))
      (Reader.expression (.of stop ts) inner us) := by
  rw [Tokens.expression, Reader.expression]
  split
  · next hcut =>
    rw [hcut] at hunary
    exact hunary.stop _
  next e behind h hwhole =>
  rw [hwhole] at hunary
  obtain ⟨hbehind, hrun⟩ := hunary
  have hcasts := (Reader.isSuffix_skipCasts behind).trans hbehind
  dsimp only
  split
  · next harrow =>
    refine performs_cut ?_
    rw [eval_cut]
    refine hrun.bind ?_
    rintro _ v ⟨rfl, hv⟩
    simp only [skipCasts_place hbehind, peek_place hcasts, peekAhead_place hcasts, pure_bind,
      isPunct_kindOf, if_pos harrow, refuse_place hcasts]
    exact Run.follows_halt (hQ.fault _ rfl)
  next harrow =>
  split
  · next c hoperator =>
    refine performs_cut ?_
    rw [eval_cut]
    refine hrun.bind ?_
    rintro _ v ⟨rfl, hv⟩
    simp only [skipCasts_place hbehind, peek_place hcasts, peekAhead_place hcasts, pure_bind,
      isPunct_kindOf, if_neg harrow, hoperator, refuse_place hcasts]
    exact Run.follows_halt (hQ.fault _ rfl)
  · next hoperator =>
    refine ⟨hcasts, ?_⟩
    rw [← bind_pure (e.eval scope)]
    refine hrun.bind ?_
    rintro _ v ⟨rfl, hv⟩
    simp only [skipCasts_place hbehind, peek_place hcasts, peekAhead_place hcasts, pure_bind,
      isPunct_kindOf, if_neg harrow, hoperator]
    exact Run.follows_pure ⟨rfl, hv⟩

/-! ## Literals and names -/

/-- A template is run stretch by stretch. -/
lemma template_eq_foldlM (text : String) (parts : List ((Nat × List Char) × String)) :
    template checked scope text parts =
      parts.foldlM (fun text part => do
        let toks ← Cursor.tokenize part.1.2 part.1.1
        let v ← Tokens.whole checked scope ⟨toks⟩
        return text ++ display v ++ part.2) text := by
  simp only [template, substitution, bind_assoc]

/-- The first substitution of a template is evaluated before the others. -/
lemma template_cons (text : String) (part : (Nat × List Char) × String)
    (parts : List ((Nat × List Char) × String)) :
    template checked scope text (part :: parts) =
      (substitution checked scope part.1.1 part.1.2 >>= fun v =>
        template checked scope (text ++ display v ++ part.2) parts) := by
  rw [template, List.foldlM_cons, bind_assoc]
  rfl

/-- The text of a template. -/
lemma template_follows {parts : List (Substitution × String)}
    (hinner : ∀ part ∈ parts, (substitution checked scope (Cursor.start part.1)
      (chars part.1.source)).Follows (fun a b => a = b) Q ((inner part.1).eval scope))
    (text : String) :
    (template checked scope text (parts.map fun part =>
      ((Cursor.start part.1, chars part.1.source), part.2))).Follows (fun a b => a = text ++ b) Q
        (evalParts scope (parts.map fun part => (inner part.1, part.2))) := by
  induction parts generalizing text with
  | nil =>
    rw [List.map_nil, List.map_nil, evalParts]
    exact Run.follows_pure (by rw [String.append_empty])
  | cons part parts ih =>
    rw [List.map_cons, template_cons, List.map_cons, evalParts]
    refine (hinner part List.mem_cons_self).bind ?_
    rintro v _ rfl
    have htail := ih (fun part hpart => hinner part (List.mem_cons_of_mem _ hpart))
      (text ++ display v ++ part.2)
    rw [← bind_pure (template _ _ _ _)]
    refine htail.bind ?_
    rintro _ tail rfl
    exact Run.follows_pure (by simp only [String.append_assoc])

/-- Each stretch with the chunk behind it. -/
lemma zip_stretchesOf (head : String) (parts : List (Substitution × String)) :
    (Cursor.stretchesOf parts).zip (Cursor.chunksOf head parts).tail =
      parts.map fun part => ((Cursor.start part.1, chars part.1.source), part.2) := by
  simp only [Cursor.stretchesOf, Cursor.chunksOf, List.tail_cons, List.zip_map']

/-- An expression in brackets. -/
lemma bracketed_performed (hQ : Reports Q (.of stop ts) ts)
    (hexpression : IsEvaluated scope asked Q ts
      ((tokensOf ts stop broken).expression checked scope (place ts us))
      (Reader.expression (.of stop ts) inner us)) (hn : us.length < n) :
    IsEvaluated scope asked Q ts
      (do
        let (v, pos) ← (tokensOf ts stop broken).expression checked scope (place ts us)
        return (v, ← expect (tokensOf ts stop broken) ')' pos))
      (match Reader.expression (.of stop ts) inner us with
        | .cut e => .cut e
        | .whole e behind he =>
          match Reader.expectSign (.of stop ts) ')' behind with
          | .error f => .cut (.cut (some e) f)
          | .ok ⟨rest, h⟩ =>
            .whole e rest (Nat.lt_trans (Nat.lt_trans h he) hn) : Reading Expr n) := by
  split
  · next hcut =>
    rw [hcut] at hexpression
    exact hexpression.stop _
  · next e behind hshort hwhole =>
    rw [hwhole] at hexpression
    obtain ⟨hbehind, hrun⟩ := hexpression
    rw [bind_place hrun]
    exact performs_closed hQ hbehind (gives_first hrun) ')' (fun _ hv => hv)
      (bind_pure (e.eval scope)).symm (eval_cut e) (Nat.lt_trans hshort hn)

/-- A sign where an expression begins: one that opens a literal or brackets, or a breach. -/
lemma primary_performed_sign {t : Lexeme} {rest : List Lexeme} {s : Sign}
    (hQ : Reports Q (.of stop ts) ts) (h : t :: rest <:+ ts) (ht : t.token = .sign s)
    (hlater : ArePerformed asked checked scope inner Q ts stop broken rest) :
    IsEvaluated scope asked Q ts
      ((tokensOf ts stop broken).primary checked scope (place ts (t :: rest)))
      (Reader.primary (.of stop ts) inner (t :: rest)) := by
  rw [Tokens.primary, Reader.primary, advance_place h, pure_bind, kindOf]
  obtain ⟨token, offset, afterBreak, source⟩ := t
  obtain rfl : token = .sign s := ht
  dsimp only [List.tail_cons, Kind.of]
  by_cases hbrace : s = .punct '\x7b'
  · subst hbrace
    exact (hlater.object [] (pure []) (Run.follows_pure ⟨rfl, List.forall_mem_nil _⟩)).weaken _
  by_cases hbracket : s = .punct '['
  · subst hbracket
    exact (hlater.array [] (pure []) (Run.follows_pure ⟨rfl, List.forall_mem_nil _⟩)).weaken _
  by_cases hparenthesis : s = .punct '('
  · subst hparenthesis
    exact bracketed_performed hQ hlater.expression (Nat.lt_succ_self _)
  · simp only
    rw [place_sub_one]
    exact performs_fault (refuse_place h _) (by rw [Expr.eval]; rfl)
      (hQ.sign _ (h.subset List.mem_cons_self) s rfl)

/-- A word where an expression begins: a constant, a name in scope, or a breach. -/
lemma primary_performed_word {t : Lexeme} {rest : List Lexeme} {w : String}
    (hQ : Reports Q (.of stop ts) ts) (h : t :: rest <:+ ts) (ht : t.token = .word w)
    (hscope : Scope.Spares asked scope) :
    IsEvaluated scope asked Q ts
      ((tokensOf ts stop broken).primary checked scope (place ts (t :: rest)))
      (Reader.primary (.of stop ts) inner (t :: rest)) := by
  have hrest : rest <:+ ts := isSuffix_tail h
  rw [Tokens.primary, Reader.primary, advance_place h, pure_bind, kindOf]
  obtain ⟨token, offset, afterBreak, source⟩ := t
  obtain rfl : token = .word w := ht
  dsimp only [List.tail_cons, Kind.of]
  cases hconstant : Reader.wordConstant? w with
  | some v => exact performs_value hrest (by rw [Expr.eval]) (spares_wordConstant? hconstant)
  | none =>
    dsimp only
    by_cases hunsupported : w ∈ Reader.unsupportedWords
    · rw [if_pos hunsupported, if_pos hunsupported]
      exact performs_fault (refuse_place hrest _) (by rw [Expr.eval]) (hQ.fault _ rfl)
    rw [if_neg hunsupported, if_neg hunsupported, peek_place hrest, pure_bind, isPunct_kindOf]
    by_cases hcall : atSign '(' rest
    · rw [if_pos hcall, if_pos hcall]
      exact performs_fault (refuse_place hrest _) (by rw [Expr.eval]) (hQ.fault _ rfl)
    · rw [if_neg hcall, if_neg hcall]
      refine ⟨hrest, ?_⟩
      rw [Expr.eval]
      exact lookup_performed hQ hscope w rest

/-- **Literals, names and expressions in brackets**. -/
theorem primary_performed (hQ : Reports Q (.of stop ts) ts) (h : us <:+ ts)
    (hscope : Scope.Spares asked scope)
    (hinner : ∀ t ∈ ts, ∀ head parts, t.token = .template head parts → ∀ part ∈ parts,
      (substitution checked scope (Cursor.start part.1) (chars part.1.source)).Follows
        (fun a b => a = b) Q ((inner part.1).eval scope))
    (ih : ∀ vs, vs <:+ ts → vs.length < us.length →
      ArePerformed asked checked scope inner Q ts stop broken vs) :
    IsEvaluated scope asked Q ts
      ((tokensOf ts stop broken).primary checked scope (place ts us))
      (Reader.primary (.of stop ts) inner us) := by
  cases us with
  | nil =>
    rw [Tokens.primary, Reader.primary, advance_place h, pure_bind]
    exact performs_fault (refuse_last ..) (by rw [Expr.eval]) hQ.finish
  | cons t rest =>
  have hrest : rest <:+ ts := isSuffix_tail h
  have hus := hinner t (h.subset List.mem_cons_self)
  obtain ⟨token, offset, afterBreak, source⟩ := t
  cases token with
  | number x =>
    rw [Tokens.primary, Reader.primary, advance_place h]
    exact performs_value hrest (by rw [Expr.eval]) (spares?_some.2 (spares_numberValue x))
  | text s =>
    rw [Tokens.primary, Reader.primary, advance_place h]
    exact performs_value hrest (by rw [Expr.eval]) (spares?_some.2 (spares_str s))
  | template head parts =>
    rw [Tokens.primary, Reader.primary, advance_place h, pure_bind, kindOf]
    refine ⟨hrest, ?_⟩
    rw [Expr.eval]
    dsimp only [Kind.of, List.tail_cons]
    rw [zip_stretchesOf, ← template_eq_foldlM]
    refine (template_follows (hus head parts rfl) head).bind ?_
    rintro _ text rfl
    exact Run.follows_pure ⟨rfl, spares?_some.2 (spares_str _)⟩
  | sign s => exact primary_performed_sign hQ h rfl (ih rest hrest (Nat.lt_succ_self _))
  | word w => exact primary_performed_word hQ h rfl hscope

/-! ## Signs in front -/

/-- A sign in front of a value. -/
lemma signed_gives (hQ : Reports Q (.of stop ts) ts) (hoverflow : SettlesOverflow asked checked Q)
    (negative : Bool) {v : Option Value} (hv : Spares? asked v) :
    (signed checked negative v).Gives (Spares? asked) Q (applySign negative v) := by
  have hother : Run.Gives (Spares? asked) Q (Run.fail (.signedNonNumber negative))
      (.error (.signedNonNumber negative)) :=
    ⟨rfl, hQ.other (.signedNonNumber negative) rfl⟩
  rcases v with _ | v
  · exact hother
  cases v with
  | num n =>
    cases negative with
    | false => exact Run.follows_pure ⟨rfl, hv⟩
    | true =>
      rw [signed, if_pos rfl, negated]
      cases hvalue : negate? n with
      | some w =>
        rw [applySign_of_negate? hvalue]
        exact Run.follows_pure ⟨rfl, spares?_some.2 (spares_negate? hvalue)⟩
      | none =>
        rw [applySign_overflow hvalue]
        rcases hoverflow with rfl | ⟨rfl, hoverflow⟩
        · exact absurd (eq_of_signed? (negate?_eq_none_iff.1 hvalue) ▸ .self) (hv _ rfl rfl)
        · exact ⟨rfl, hoverflow⟩
  | _ => exact hother

/-- A sign in front of an expression. -/
lemma signed_performed (hQ : Reports Q (.of stop ts) ts)
    (hoverflow : SettlesOverflow asked checked Q) (negative : Bool)
    (hunary : IsEvaluated scope asked Q ts
      ((tokensOf ts stop broken).unary checked scope (place ts us))
      (Reader.unary (.of stop ts) inner us)) :
    IsEvaluated scope asked Q ts
      (do
        let (v, pos) ← (tokensOf ts stop broken).unary checked scope (place ts us)
        return (← signed checked negative v, pos))
      ((Reader.unary (.of stop ts) inner us).map (.signed negative)) :=
  (hunary.andThen (applySign negative) fun _ behind hv =>
    Stands.of_gives (signed_gives hQ hoverflow negative hv) behind).map (Expr.signed negative)
      fun e => by rw [Expr.eval]

/-- An expression with its signs. -/
theorem unary_performed (hQ : Reports Q (.of stop ts) ts)
    (hoverflow : SettlesOverflow asked checked Q) (h : us <:+ ts)
    (hprimary : IsEvaluated scope asked Q ts
      ((tokensOf ts stop broken).primary checked scope (place ts us))
      (Reader.primary (.of stop ts) inner us))
    (ih : ∀ vs, vs <:+ ts → vs.length < us.length →
      ArePerformed asked checked scope inner Q ts stop broken vs) :
    IsEvaluated scope asked Q ts
      ((tokensOf ts stop broken).unary checked scope (place ts us))
      (Reader.unary (.of stop ts) inner us) := by
  rw [Tokens.unary, Reader.unary]
  split
  · next rest hshort hminus =>
    obtain ⟨hrest, heat⟩ := eat_of_sign? stop broken h hminus
    rw [heat, pure_bind]
    exact (signed_performed hQ hoverflow true (ih rest hrest hshort).unary).weaken _
  next hminus =>
  rw [eat_of_not_sign? h hminus, pure_bind]
  dsimp only
  rw [if_neg (by simp)]
  split
  · next rest hshort hplus =>
    obtain ⟨hrest, heat⟩ := eat_of_sign? stop broken h hplus
    rw [heat, pure_bind]
    exact (signed_performed hQ hoverflow false (ih rest hrest hshort).unary).weaken _
  next hplus =>
  rw [eat_of_not_sign? h hplus, pure_bind]
  dsimp only
  rw [if_neg (by simp)]
  split
  · next hcut =>
    rw [hcut] at hprimary
    exact hprimary.stop _
  next e behind hshort hwhole =>
  rw [hwhole] at hprimary
  obtain ⟨hbehind, hrun⟩ := hprimary
  have hstart : ((tokensOf ts stop broken).primary checked scope (place ts us) >>=
      fun a => pure (some a.1)).Gives (fun reached => ∀ v ∈ reached, Spares? asked v) Q
        (reachedBy scope e []) := by
    refine hrun.bind ?_
    rintro _ v ⟨rfl, hv⟩
    exact Run.follows_pure ⟨rfl, by rintro _ ⟨⟩; exact hv⟩
  have haccesses := (ih behind hbehind hshort).accesses e [] _ hstart
  rw [bind_assoc] at haccesses
  rw [bind_place hrun, bind_assoc]
  exact haccesses.weaken _

/-! ## All expressions -/

variable (broken) in
/-- **The runs do what the readers say**, at every place of a text.

**Proof sketch.** Strong induction on the number of tokens that are left, with one lemma for each
function of the parser; those that read the first part of a larger one are settled first. -/
theorem arePerformed (hQ : Reports Q (.of stop ts) ts)
    (hoverflow : SettlesOverflow asked checked Q) (hscope : Scope.Spares asked scope)
    (hinner : ∀ t ∈ ts, ∀ head parts, t.token = .template head parts → ∀ part ∈ parts,
      (substitution checked scope (Cursor.start part.1) (chars part.1.source)).Follows
        (fun a b => a = b) Q ((inner part.1).eval scope)) (us : List Lexeme) (h : us <:+ ts) :
    ArePerformed asked checked scope inner Q ts stop broken us := by
  induction hn : us.length using Nat.strongRecOn generalizing us with
  | _ n ih =>
  subst hn
  have ih' : ∀ vs, vs <:+ ts → vs.length < us.length →
      ArePerformed asked checked scope inner Q ts stop broken vs :=
    fun vs hvs hlength => ih vs.length hlength vs hvs rfl
  have hunary := unary_performed hQ hoverflow h (primary_performed hQ h hscope hinner ih') ih'
  have hexpression := expression_performed hQ hunary
  exact {
    expression := hexpression
    unary := hunary
    accesses := fun base read _ => accesses_performed hQ h ih' base read
    index := index_performed hQ hexpression
    propertyValue := propertyValue_performed hQ h ih'
    object := fun read _ => object_performed hQ h hscope ih' read
    array := fun read _ => array_performed hQ h hexpression ih' read }

end Expressions

/-! ## Stretches of templates -/

section Stretches

variable {asked checked : Bool} {scope : Scope} {Q : Failure → Prop} {whole : Nat × List Char}

/-- A stretch holds one expression and nothing behind it. -/
lemma wholeStretch_follows {ts : List Lexeme} {stop : Nat} {broken : Bool}
    {inner : Substitution → Expr} (hQ : Reports Q (.of stop ts) ts)
    (hexpression : IsEvaluated scope asked Q ts
      ((tokensOf ts stop broken).expression checked scope (place ts ts))
      (Reader.expression (.of stop ts) inner ts)) :
    ((tokensOf ts stop broken).whole checked scope).Follows (fun a b => a = b) Q
        (Expr.eval scope (match Reader.expression (.of stop ts) inner ts with
          | .cut e => e
          | .whole e [] _ => e
          | .whole e (t :: _) _ => .cut (some e) ⟨t.offset, .behindSubstitution⟩)) := by
  rw [Tokens.whole, ← place_self ts]
  split
  · next hcut =>
    rw [hcut] at hexpression
    exact hexpression.stop _
  · next e hshort hwhole =>
    rw [hwhole] at hexpression
    rw [← bind_pure (e.eval scope)]
    refine hexpression.2.bind ?_
    rintro _ v ⟨rfl, -⟩
    dsimp only
    rw [peek_place hexpression.1, pure_bind]
    exact Run.follows_pure rfl
  · next e t rest hshort hwhole =>
    rw [hwhole] at hexpression
    rw [eval_cut]
    refine hexpression.2.bind ?_
    rintro _ v ⟨rfl, -⟩
    dsimp only
    rw [peek_place hexpression.1, pure_bind, refuse_place hexpression.1]
    obtain ⟨token, _, _, _⟩ := t
    cases token <;> exact Run.follows_halt (hQ.fault _ rfl)

/-- **The stretches of templates** have the values of their expressions.

**Proof sketch.** Strong induction on the length of the stretch: it is cut into tokens
(`Cursor.exists_tokenize`), the stretches of the templates among them are shorter, and with their
values the expression is run as it is read (`arePerformed`). -/
theorem substitution_follows (hscope : Scope.Spares asked scope)
    (hoverflow : SettlesOverflow asked checked Q)
    (hQ : ∀ base src ts, Cursor.IsStretch whole (base, src) → lexemes (locate base src) = .ok ts →
      Reports Q (.of (base + Text.byteCount src) ts) ts)
    (hfault : ∀ f : Fault, f.problem.isUnexpected = false → Q (.fault f)) (s : Substitution)
    (hs : s.IsPlaced) (hstretch : Cursor.IsStretch whole (Cursor.start s, chars s.source)) :
    (substitution checked scope (Cursor.start s) (chars s.source)).Follows (fun a b => a = b) Q
      ((substitutionExpr s).eval scope) := by
  induction hn : s.source.length using Nat.strongRecOn generalizing s with
  | _ n ih =>
  subst hn
  obtain ⟨hsource, hstop⟩ := hs
  obtain ⟨broken, htoks⟩ := Cursor.exists_tokenize (chars s.source) (Cursor.start s)
  rw [← hsource] at htoks
  rw [substitution, substitutionExpr]
  cases hts : lexemes s.source with
  | error f =>
    rw [htoks, hts]
    dsimp only
    rw [Expr.eval]
    exact Run.follows_halt (hfault f (isLexical_lexemes _ f hts))
  | ok ts =>
    dsimp only
    have htoks : Cursor.tokenize (chars s.source) (Cursor.start s) =
        pure (tokensOf ts s.stop broken).toList := by
      rw [htoks, hts, hstop]
      rfl
    have hlocated : lexemes (locate (Cursor.start s) (chars s.source)) = .ok ts := hsource ▸ hts
    have hends := hQ _ _ ts hstretch hlocated
    rw [← hstop] at hends
    have hinner : ∀ t ∈ ts, ∀ head parts, t.token = .template head parts → ∀ part ∈ parts,
        (substitution checked scope (Cursor.start part.1) (chars part.1.source)).Follows
          (fun a b => a = b) Q ((innerExpr s.source.length part.1).eval scope) := by
      intro t ht head parts htoken part hpart
      obtain ⟨left, _, hscans, -⟩ := Scans.of_lexemes hts
      have hlength := hscans.length_source ht htoken part hpart
      rw [innerExpr, if_pos (by omega)]
      exact ih _ (by omega) part.1
        (isPlaced_of_lexemes hts ⟨_, hsource⟩ ht htoken part hpart)
        (hstretch.of_lexemes hlocated ht htoken hpart) rfl
    rw [htoks, pure_bind]
    exact wholeStretch_follows hends
      (arePerformed broken hends hoverflow hscope hinner ts (List.suffix_refl ts)).expression

end Stretches

end CardTable.Script.Interpreter
