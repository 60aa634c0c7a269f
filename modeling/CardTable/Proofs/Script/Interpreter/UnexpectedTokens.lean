import CardTable.Proofs.Script.Interpreter.Bodies
import CardTable.Proofs.Script.Cursor.Spellings

set_option autoImplicit false

/-!
# Unexpected tokens

Where an expression is to begin and a token stands that begins none, the reader has gone past that
token already, and it steps back to report it. At the end of a text it has not moved, since there is
nothing to go to, and yet it steps back: an end that is unexpected is reported at the last token in
front of it.

## Main definitions

* `CardTable.Script.Cursor.IsReported` — an unexpected token and the offset at which it is reported.

## Main results

* `CardTable.Script.exists_unexpected_of_message` — the wordings of unexpected tokens are those of
  no other breach.
* `CardTable.Script.exists_isReported_of_message` — where a body is refused for an unexpected token,
  a sign is reported where it stands, and an end at the last token in front of it.
-/

namespace CardTable.Script

open Text (byteCount)

/-! ## Wordings -/

/-- The name of an unexpected token in messages; `none` is the end of a text. -/
def unexpectedName (s : Option Sign) : String :=
  s.elim "Eof" Sign.name

/-- The message for an unexpected token names it. -/
lemma message_unexpected (s : Option Sign) :
    (Problem.unexpected s).message = "unexpected token " ++ unexpectedName s := by
  cases s <;> rfl

/-- What stands in the place of a name in the wordings of two other breaches. -/
def otherNames : List String :=
  ["after expression", "in template substitution"]

/-- What holds of the first character of a text holds of it with more behind the text. -/
lemma any_head?_append {p : Char → Bool} {s : String} (h : s.toList.head?.any p = true)
    (t : String) : (s ++ t).toList.head?.any p = true := by
  obtain ⟨c, hc, hp⟩ := (Option.any_eq_true ..).1 h
  rw [String.toList_append, List.head?_append, hc]
  exact hp

/-- **No other breach** has the wording of an unexpected token. -/
theorem exists_unexpected_of_message {problem : Problem} {name : String}
    (h : problem.message = "unexpected token " ++ name) (hname : name ∉ otherNames) :
    ∃ s, problem = .unexpected s ∧ unexpectedName s = name := by
  have hfront : problem.message.toList.take 17 = "unexpected token ".toList := by
    rw [h, String.toList_append]
    exact List.take_left' (by decide)
  -- A wording that holds a name begins with another letter.
  have hfirst : problem.message.toList.head?.any (· != 'u') = false := by
    rw [h, String.toList_append]
    rfl
  cases problem with
  | unexpected s =>
    rw [message_unexpected] at h
    exact ⟨s, rfl, String.append_right_inj _ |>.1 h⟩
  | behindExpression =>
    have : name = "after expression" := (String.append_right_inj "unexpected token ").1 h.symm
    exact absurd (this ▸ List.mem_cons_self) hname
  | behindSubstitution =>
    have : name = "in template substitution" :=
      (String.append_right_inj "unexpected token ").1 h.symm
    exact absurd (this ▸ List.mem_cons_of_mem _ List.mem_cons_self) hname
  | escape e =>
    cases e with
    | octal digit =>
      cases hfirst.symm.trans (any_head?_append (any_head?_append rfl digit.toString) _)
    | _ => exact absurd hfront (by decide)
  | statement word => cases hfirst.symm.trans (any_head?_append (any_head?_append rfl word) _)
  | operator c =>
    cases hfirst.symm.trans (any_head?_append (any_head?_append rfl c.toString) _)
  | unsupportedWord word =>
    cases hfirst.symm.trans (any_head?_append (any_head?_append rfl word) _)
  | expected c => cases hfirst.symm.trans (any_head?_append (any_head?_append rfl c.toString) _)
  | _ => exact absurd hfront (by decide)

/-! ## Places -/

namespace Cursor

/-- The unexpected token of a body and the offset at which it is reported. -/
inductive IsReported (body : List Char) : Option Sign → Nat → Prop
  /-- A sign of the body, or of a stretch in it, is spelt in the body at that offset. -/
  | sign {stretch : Nat × List Char} {toks : List Tok} {t : Tok} {s : Sign}
      {front spelling left : List Char} (hstretch : IsStretch (0, body) stretch)
      (htoks : tokenize stretch.2 stretch.1 = pure toks) (ht : t ∈ toks) (hkind : t.kind = .sign s)
      (hbody : body = front ++ (spelling ++ left)) (hoffset : t.offset = byteCount front)
      (hspelling : Spells (.sign s) t.offset spelling) : IsReported body (some s) t.offset
  /-- The offset is that of the last token in front of the end of the body, or of a stretch in it.
  It is the end itself if there is no other token, and only then. -/
  | finish {stretch : Nat × List Char} {toks : List Tok} {t : Tok}
      (hstretch : IsStretch (0, body) stretch)
      (htoks : tokenize stretch.2 stretch.1 = pure toks) (ht : toks[toks.length - 2]? = some t)
      (hend : t.offset = stretch.1 + byteCount stretch.2 ↔ toks.length = 1) :
      IsReported body none t.offset

section Reported

variable {body src : List Char} {base : Nat} {ts : List Lexeme}

/-- A sign is reported where it stands. -/
lemma isReported_sign (hstretch : IsStretch (0, body) (base, src))
    (hts : lexemes (locate base src) = .ok ts) {t : Lexeme} (ht : t ∈ ts) {s : Sign}
    (hs : t.token = .sign s) : IsReported body (some s) t.offset := by
  obtain ⟨broken, htoks⟩ := exists_tokenize_of_lexemes hts
  have hmem : Tok.of t ∈ ts.map Tok.of ++ [⟨.finish, base + byteCount src, broken⟩] :=
    List.mem_append_left _ (List.mem_map_of_mem ht)
  have hkind : (Tok.of t).kind = .sign s := congrArg Kind.of hs
  obtain ⟨front, spelling, left, hbody, hoffset, hspelling⟩ := hstretch.exists_spelling htoks hmem
  rw [hkind] at hspelling
  exact .sign hstretch htoks hmem hkind hbody (hoffset.trans (Nat.zero_add _)) hspelling

/-- The end is reported at the last token in front of it. -/
lemma isReported_finish (hstretch : IsStretch (0, body) (base, src))
    (hts : lexemes (locate base src) = .ok ts) :
    IsReported body none (TextEnd.of (base + byteCount src) ts).last := by
  obtain ⟨broken, htoks⟩ := exists_tokenize_of_lexemes hts
  rcases ts.eq_nil_or_concat' with rfl | ⟨front, t, rfl⟩
  · exact .finish hstretch htoks rfl (iff_of_true rfl rfl)
  rw [TextEnd.of, List.getLast?_concat]
  -- The token and the end are two tokens, and the offsets of tokens ascend.
  rw [List.map_append, List.append_assoc] at htoks
  have hlast := (List.pairwise_append.1 (tiles_of_tokenize htoks).pairwise).2.1
  have hbefore : t.offset < base + byteCount src :=
    (List.pairwise_cons.1 hlast).1 _ (List.mem_singleton_self _)
  refine .finish hstretch htoks (t := Tok.of t) ?_ (iff_of_false (Nat.ne_of_lt hbefore) ?_)
  · rw [List.length_append]
    exact (List.getElem?_append_right (Nat.le_refl _)).trans (by rw [Nat.sub_self]; rfl)
  · simp

end Reported

end Cursor

/-- What is asked of failures: unexpected tokens are reported in the body as they are. -/
def ReportsUnexpected (body : List Char) (f : Failure) : Prop :=
  ∀ o s, f = .fault ⟨o, .unexpected s⟩ → Cursor.IsReported body s o

/-- The tokens of a body, and those of the stretches in it, are reported there. -/
lemma reports_reportsUnexpected {body src : List Char} {base : Nat} {ts : List Lexeme}
    (hstretch : Cursor.IsStretch (0, body) (base, src))
    (hts : lexemes (locate base src) = .ok ts) :
    Reports (ReportsUnexpected body) (.of (base + byteCount src) ts) ts where
  sign := by
    rintro t ht s hs _ _ ⟨⟩
    exact Cursor.isReported_sign hstretch hts ht hs
  finish := by
    rintro _ _ ⟨⟩
    exact Cursor.isReported_finish hstretch hts
  other := by
    rintro _ hf _ _ rfl
    cases hf

/-! ## Nothing behind a minus sign -/

namespace Reader

variable (fin : TextEnd) (inner : Substitution → Expr)

/-- No expression begins at the end of a text. -/
lemma unary_nil : unary fin inner [] = .cut (.cut none ⟨fin.last, .unexpected none⟩) := by
  rw [unary, sign?, sign?, primary]

/-- A minus sign at the end of a text has nothing behind it. -/
lemma expression_of_minus {t : Lexeme} (ht : IsPunct '-' t) :
    expression fin inner [t] =
      .cut (.signed true (.cut none ⟨fin.last, .unexpected none⟩)) := by
  rw [expression, unary, sign?_of_isPunct ht]
  dsimp only
  rw [unary_nil]
  rfl

end Reader

/-- The tokens are those of `return -`. -/
def spellsReturnMinus : List Lexeme → Bool
  | [result, minus] =>
    headWord? [result] == some "return" && atSign '-' [minus] && minus.offset == 7
  | _ => false

/-- Tokens that are spelled so are a return and a minus sign behind it. -/
lemma exists_of_spellsReturnMinus {ts : List Lexeme} (h : spellsReturnMinus ts = true) :
    ∃ result minus : Lexeme, ts = [result, minus] ∧ result.token = .word "return" ∧
      Reader.IsPunct '-' minus ∧ minus.offset = 7 := by
  unfold spellsReturnMinus at h
  split at h
  · simp only [Bool.and_eq_true, beq_iff_eq] at h
    obtain ⟨⟨hresult, hminus⟩, hoffset⟩ := h
    exact ⟨_, _, rfl, Reader.headWord?_eq_some_iff.1 hresult, Reader.atSign_cons_iff.1 hminus,
      hoffset⟩
  · cases h

/-- The tokens of `return -`. -/
lemma exists_lexemes_returnMinus : ∃ result minus : Lexeme,
    lexemes (locate 0 "return -".toList) = .ok [result, minus] ∧ result.token = .word "return" ∧
      Reader.IsPunct '-' minus ∧ minus.offset = 7 := by
  have hcheck : (lexemes (locate 0 "return -".toList)).toOption.any spellsReturnMinus = true := by
    decide +kernel
  obtain ⟨_, hts, hspells⟩ := (Option.any_eq_true ..).1 hcheck
  obtain ⟨result, minus, rfl, hparts⟩ := exists_of_spellsReturnMinus hspells
  exact ⟨result, minus, eq_ok_of_toOption hts, hparts⟩

/-- The body `return -` is refused for its end. -/
lemma evaluate_returnMinus :
    evaluate [] "return -" = .error (.fault ⟨7, .unexpected none⟩) := by
  obtain ⟨result, minus, hts, hresult, hminus, hoffset⟩ := exists_lexemes_returnMinus
  have hvalue : ¬([minus] = [] ∨ atSign ';' [minus] ∨ atSign '\x7d' [minus]) := by
    simp [hminus.atSign_cons]
  rw [evaluate, bodyStatements, hts]
  dsimp only [Except.map]
  rw [Reader.statements_of_word hresult, if_neg (by decide), if_pos rfl, if_neg hvalue,
    Reader.expression_of_minus _ _ hminus]
  rw [run, Reading.tree, Expr.eval, Expr.eval, TextEnd.of, List.getLast?_cons_cons,
    List.getLast?_singleton, Option.map_some, Option.getD_some, hoffset]
  rfl

/-! ## Bodies -/

/-- **Unexpected tokens**: where a body is refused for one, a sign is reported at its own offset in
the body, and an end at the offset of the last token in front of it.

**Proof sketch.** Only unexpected tokens have this wording (`exists_unexpected_of_message`). Every
place at which the run reports one is the token that it looked at, or the end, and what holds of all
that a run reports is carried through by `Interpreter.evaluateBody_follows`. -/
theorem exists_isReported_of_message {bindings : List (String × Value)} {body name : String}
    {f : Fault} (h : evaluate bindings body = .error (.fault f))
    (hmessage : f.problem.message = "unexpected token " ++ name) (hname : name ∉ otherNames) :
    ∃ s, unexpectedName s = name ∧ Cursor.IsReported body.toList s f.offset := by
  obtain ⟨s, hproblem, rfl⟩ := exists_unexpected_of_message hmessage hname
  have hspares : ∀ binding ∈ bindings, Spares false binding.2 := fun _ _ => nofun
  have hoverflow : Interpreter.SettlesOverflow false true (ReportsUnexpected body.toList) :=
    .inr ⟨rfl, fun _ _ => nofun⟩
  have hrun : (Interpreter.evaluateBody true bindings body).Follows (fun a b => a = b)
      (ReportsUnexpected body.toList) (evaluate bindings body) :=
    Interpreter.evaluateBody_follows hspares hoverflow (fun _ _ _ => reports_reportsUnexpected) (by
      rintro _ hf _ _ ⟨⟩
      cases hf)
  rw [h] at hrun
  refine ⟨s, rfl, hrun.2 f.offset s ?_⟩
  rw [← hproblem]

/-- The body `return -` ends at offset 8, and offset 7 is reported for its end. -/
theorem exists_isReported_of_message_returnMinus :
    evaluate [] "return -" = .error (.fault ⟨7, .unexpected none⟩) ∧
      byteCount "return -".toList = 8 ∧
      ∃ s, unexpectedName s = "Eof" ∧ Cursor.IsReported "return -".toList s 7 :=
  ⟨evaluate_returnMinus, by decide,
    exists_isReported_of_message evaluate_returnMinus rfl (by decide)⟩

end CardTable.Script
