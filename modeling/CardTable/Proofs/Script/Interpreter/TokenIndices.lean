import CardTable.Proofs.Script.Cursor.Tokens
import CardTable.Proofs.Script.Grammar.Endings
import CardTable.Proofs.Script.Grammar.Soundness
import CardTable.Proofs.Script.Interpreter.Runs
import CardTable.Proofs.Value.LeastWholes

set_option autoImplicit false

/-!
# Tokens by their indices

The interpreter looks tokens up by an index and never passes the last one, which is the end of the
text. The readers take tokens off a list. An end of the list begins at an index of its own, and the
end of the text has the index behind all tokens: at these indices every step of the interpreter has
a step of the readers beside it.

## Main definitions

* `CardTable.Script.Interpreter.tokensOf` — the tokens of a text and behind them its end.
* `CardTable.Script.Interpreter.place` — the index at which an end of the tokens begins.

## Main results

* `CardTable.Script.Interpreter.tokenAt_place` — the token at an index is the first one left.
* `CardTable.Script.Interpreter.refuse_place`, `CardTable.Script.Interpreter.refuse_last` — where a
  breach is reported.
* `CardTable.Script.Interpreter.eat_place`, `CardTable.Script.Interpreter.expect_place` — signs that
  may or must stand at an index.
* `CardTable.Script.Interpreter.skipType_place`, `CardTable.Script.Interpreter.skipCasts_place` —
  types and casts are passed.
-/

namespace CardTable.Script.Interpreter

open Cursor (Kind Tok)

/-! ## Indices -/

/-- The tokens of a text and behind them its end. -/
def tokensOf (ts : List Lexeme) (stop : Nat) (broken : Bool) : Tokens :=
  ⟨ts.map Tok.of ++ [⟨.finish, stop, broken⟩]⟩

/-- The index at which the end `us` of the tokens begins. -/
def place (ts us : List Lexeme) : Nat :=
  ts.length - us.length

/-- What the first token is, or the end. -/
def kindOf : List Lexeme → Kind
  | [] => .finish
  | t :: _ => .of t.token

section Indices

variable {ts us : List Lexeme} {stop : Nat} {broken : Bool}

/-- The first token has the index zero. -/
lemma place_self (ts : List Lexeme) : place ts ts = 0 :=
  Nat.sub_self _

/-- What is behind the first token of an end is an end. -/
lemma isSuffix_tail (h : us <:+ ts) : us.tail <:+ ts :=
  (List.tail_suffix us).trans h

variable (stop broken) in
/-- The token at the place of an end of the text is its first one. -/
theorem tokenAt_place (h : us <:+ ts) :
    ∃ t, tokenAt (tokensOf ts stop broken) (place ts us) = pure t ∧ t.kind = kindOf us ∧
      t.offset = (TextEnd.of stop ts).offsetOf us ∧
        ∀ u ∈ us.head?, t.afterBreak = u.afterBreak := by
  obtain ⟨front, rfl⟩ := h
  have hplace : place (front ++ us) us = (front.map Tok.of).length := by
    rw [place, List.length_append, Nat.add_sub_cancel, List.length_map]
  rw [tokenAt, tokensOf, hplace, List.map_append, List.append_assoc,
    List.getElem?_append_right (Nat.le_refl _), Nat.sub_self]
  cases us with
  | nil => exact ⟨_, rfl, rfl, rfl, nofun⟩
  | cons t rest =>
    refine ⟨_, rfl, rfl, rfl, ?_⟩
    rintro _ ⟨⟩
    rfl

/-- The token at the index is the first of those that are left. -/
lemma peek_place (h : us <:+ ts) :
    peek (tokensOf ts stop broken) (place ts us) = pure (kindOf us) := by
  obtain ⟨t, ht, hkind, -⟩ := tokenAt_place stop broken h
  rw [peek, ht, pure_bind, hkind]

/-- A problem is reported where the token at the index stands. -/
theorem refuse_place {α : Type} (h : us <:+ ts) (problem : Problem) :
    (refuse (tokensOf ts stop broken) (place ts us) problem : Run α) =
      Run.fail (.fault ⟨(TextEnd.of stop ts).offsetOf us, problem⟩) := by
  obtain ⟨t, ht, -, hoffset, -⟩ := tokenAt_place stop broken h
  rw [refuse, ht, pure_bind, hoffset]

/-- The last index is that of the end of the text. -/
lemma decrement_length :
    Cursor.decrement (tokensOf ts stop broken).toList.length = pure ts.length := by
  rw [tokensOf, List.length_append, List.length_map]
  rfl

/-- Going on by one token leaves those behind it, and the end of the text is not left. -/
lemma advance_place (h : us <:+ ts) :
    advance (tokensOf ts stop broken) (place ts us) = pure (kindOf us, place ts us.tail) := by
  have hlength := h.length_le
  rw [advance, peek_place h, pure_bind, decrement_length, pure_bind]
  cases us with
  | nil => rw [if_neg (by simp [place])]; rfl
  | cons t rest =>
    rw [List.length_cons] at hlength
    rw [if_pos (by simp only [place, List.length_cons]; omega)]
    simp only [place, List.length_cons, List.tail_cons]
    congr 2
    omega

/-- A step goes on by one token. -/
lemma next_place (h : us <:+ ts) :
    next (tokensOf ts stop broken) (place ts us) = pure (place ts us.tail) := by
  rw [next, advance_place h, pure_bind]

/-- The token behind the one at the index. -/
lemma peekAhead_place (h : us <:+ ts) :
    peekAhead (tokensOf ts stop broken) (place ts us) 1 = pure (kindOf us.tail) := by
  have hlength := h.length_le
  have hmin : min (place ts us + 1) ts.length = place ts us.tail := by
    simp only [place, List.length_tail]
    cases us with
    | nil => simp
    | cons t rest =>
      simp only [List.length_cons] at hlength ⊢
      omega
  rw [peekAhead, decrement_length, pure_bind, hmin, peek_place (isSuffix_tail h)]

/-- The test for a sign is the one of the reader. -/
lemma isPunct_kindOf (c : Char) (us : List Lexeme) : isPunct c (kindOf us) = atSign c us := by
  cases us with
  | nil => rfl
  | cons t rest =>
    obtain ⟨token, _, _, _⟩ := t
    cases token with
    | sign s => cases s <;> rfl
    | _ => rfl

/-- A sign is passed if it stands there. -/
theorem eat_place (h : us <:+ ts) (c : Char) :
    eat (tokensOf ts stop broken) c (place ts us) =
      if atSign c us then pure (true, place ts us.tail) else pure (false, place ts us) := by
  rw [eat, peek_place h, pure_bind, isPunct_kindOf]
  split
  · rw [next_place h, pure_bind]
  · rfl

variable (stop broken) in
/-- A sign that is there is taken. -/
lemma eat_of_sign? (h : us <:+ ts) {c : Char} {rest : List Lexeme}
    {hshort : rest.length < us.length} (hsign : Reader.sign? c us = some ⟨rest, hshort⟩) :
    rest <:+ ts ∧ eat (tokensOf ts stop broken) c (place ts us) = pure (true, place ts rest) := by
  obtain ⟨t, rfl, ht⟩ := Reader.sign?_eq_some_iff.1 hsign
  rw [eat_place h, if_pos (Reader.atSign_cons_iff.2 ht)]
  exact ⟨isSuffix_tail h, rfl⟩

/-- A sign that is not there is not taken. -/
lemma eat_of_not_sign? (h : us <:+ ts) {c : Char} (hsign : Reader.sign? c us = none) :
    eat (tokensOf ts stop broken) c (place ts us) = pure (false, place ts us) := by
  rw [eat_place h, Reader.sign?_eq_none_iff.1 hsign]
  rfl

variable (stop broken) in
/-- A sign that must stand there. -/
theorem expect_place (h : us <:+ ts) (c : Char) :
    expect (tokensOf ts stop broken) c (place ts us) =
      match Reader.expectSign (TextEnd.of stop ts) c us with
      | .ok ⟨rest, _⟩ => pure (place ts rest)
      | .error f => Run.fail (.fault f) := by
  rw [expect, Reader.expectSign]
  cases hsign : Reader.sign? c us with
  | none =>
    rw [eat_of_not_sign? h hsign]
    exact refuse_place h _
  | some found =>
    obtain ⟨rest, hshort⟩ := found
    rw [(eat_of_sign? stop broken h hsign).2]
    rfl

/-- The name of a property is the word at the index. -/
lemma propertyName_place (h : us <:+ ts) :
    propertyName (tokensOf ts stop broken) (place ts us) =
      match headWord? us with
      | some name => pure (name, place ts us.tail)
      | none => Run.fail (.fault ⟨(TextEnd.of stop ts).offsetOf us.tail, .propertyName⟩) := by
  rw [propertyName, advance_place h, pure_bind]
  cases us with
  | nil => exact refuse_place (isSuffix_tail h) _
  | cons t rest =>
    obtain ⟨token, _, _, _⟩ := t
    cases token with
    | word name => rfl
    | _ => exact refuse_place (isSuffix_tail h) _

/-- **A type** is skipped. -/
theorem skipType_place (h : us <:+ ts) (stops : Char → Bool) (depth : Nat) (begun : Bool) :
    (tokensOf ts stop broken).skipType stops depth begun (place ts us) =
      pure (place ts (Script.skipType stops depth begun us)) := by
  induction us generalizing depth begun with
  | nil =>
    obtain ⟨t, ht, hkind, -⟩ := tokenAt_place stop broken h
    rw [Tokens.skipType, ht, pure_bind, hkind]
    rfl
  | cons u rest ih =>
    obtain ⟨t, ht, hkind, -, hbreak⟩ := tokenAt_place stop broken h
    have hstep : ∀ depth, (next (tokensOf ts stop broken) (place ts (u :: rest)) >>=
        (tokensOf ts stop broken).skipType stops depth true) =
          pure (place ts (Script.skipType stops depth true rest)) := by
      intro depth
      rw [next_place h, pure_bind]
      exact ih (isSuffix_tail h) depth true
    rw [Tokens.skipType, ht, pure_bind, hkind, hbreak u rfl]
    obtain ⟨token, o, afterBreak, source⟩ := u
    rw [Script.skipType]
    cases token with
    | sign s =>
      cases s with
      | punct c =>
        dsimp only [kindOf, Kind.of]
        split
        · rfl
        split
        · exact hstep (depth + 1)
        split
        · exact hstep (depth - 1)
        · exact hstep depth
      | _ => exact hstep depth
    | word w =>
      dsimp only [kindOf, Kind.of]
      split
      · rfl
      · exact hstep depth
    | _ => exact hstep depth

/-- **Casts** are skipped. -/
theorem skipCasts_place (h : us <:+ ts) :
    (tokensOf ts stop broken).skipCasts (place ts us) = pure (place ts (Script.skipCasts us)) := by
  fun_induction Script.skipCasts us with
  | case1 w _ _ _ rest hcast ih =>
    have hrest : rest <:+ ts := isSuffix_tail h
    have hbehind := (Reader.isSuffix_skipType (fun _ => false) 0 false rest).trans hrest
    rw [Tokens.skipCasts, peek_place h, pure_bind]
    dsimp only [kindOf, Kind.of]
    rw [if_pos hcast, next_place h, pure_bind, List.tail_cons, skipType_place hrest, pure_bind,
      ih hbehind]
  | case2 w _ _ _ rest hcast =>
    rw [Tokens.skipCasts, peek_place h, pure_bind]
    dsimp only [kindOf, Kind.of]
    rw [if_neg hcast]
  | case3 us hword =>
    rw [Tokens.skipCasts, peek_place h, pure_bind]
    cases us with
    | nil => rfl
    | cons t rest =>
      obtain ⟨token, _, _, _⟩ := t
      cases token with
      | word w => exact absurd rfl (hword w _ _ _ rest)
      | _ => rfl

/-- The token in front of an end of the text. -/
lemma place_sub_one (t : Lexeme) (rest : List Lexeme) :
    place ts rest - 1 = place ts (t :: rest) := by
  rw [place, place, List.length_cons, Nat.sub_sub]

/-- A breach that is reported at the last token. -/
theorem refuse_last {α : Type} (problem : Problem) :
    (refuse (tokensOf ts stop broken) (place ts [] - 1) problem : Run α) =
      Run.fail (.fault ⟨(TextEnd.of stop ts).last, problem⟩) := by
  have hplace : place ts [] = ts.length := rfl
  rw [hplace, refuse, tokenAt, tokensOf]
  rcases ts.eq_nil_or_concat' with rfl | ⟨front, t, rfl⟩
  · rfl
  · rw [TextEnd.of, List.getLast?_concat, List.length_append, List.map_append, List.append_assoc,
      List.getElem?_append_right (by simp)]
    simp only [List.length_map, List.length_cons, List.length_nil, Nat.add_sub_cancel, Nat.sub_self]
    rfl

end Indices

end CardTable.Script.Interpreter
