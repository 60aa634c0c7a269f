import Mathlib.Algebra.Order.Ring.Int
import Mathlib.Tactic.Ring
import CardTable.Proofs.Number.Digits
import CardTable.Proofs.Script.Interpreter.Bodies

set_option autoImplicit false

/-!
# Minus signs

A minus sign negates a number in one of three ways. A whole number of a signed word stays in the
word. A whole number beyond the signed word becomes a double, and a double stays one. So a number
behind minus signs is the exact number or the nearest double. The least number of the signed word is
the one exception: its negative does not fit, and a run stops at its first minus sign.

## Main definitions

* `CardTable.Script.IsNegated` — a name behind minus signs and inside brackets.
* `CardTable.Number.IsNear` — the exact number or the nearest double.
* `CardTable.Script.Negates` — what a whole number is behind minus signs.

## Main results

* `CardTable.Script.Negates.step` — one further minus sign.
* `CardTable.Script.evaluateBody_negated` — a name behind minus signs.
-/

namespace CardTable

/-- The double of the opposite whole number has the opposite sign. -/
lemma Double.ofInt?_neg {n : Int} (h : n ≠ 0) : ofInt? (-n) = (ofInt? n).map neg := by
  have hsign : decide (-n < 0) = !decide (n < 0) := by
    by_cases hn : n < 0
    · rw [decide_eq_true hn, decide_eq_false (by omega), Bool.not_true]
    · rw [decide_eq_false hn, decide_eq_true (by omega), Bool.not_false]
  unfold ofInt? ofRatio?
  rw [Int.natAbs_neg, hsign]
  dsimp only
  split <;> rfl

/-- The number is the whole number `n`, or the double nearest to it. -/
inductive Number.IsNear (n : Int) : Number → Prop
  /-- The exact number. -/
  | whole (h : Wide n) : Number.IsNear n (.whole n h)
  /-- The nearest double. -/
  | double {x : Double} (hx : Double.ofInt? n = some x) : Number.IsNear n (.double x)

namespace Script

open Reader

/-! ## Numbers behind minus signs -/

/-- The whole number `n` is `m` behind `k` minus signs. -/
inductive Negates (n : Int) : Nat → Number → Prop
  /-- Without a sign. -/
  | start (h : Wide n) : Negates n 0 (.whole n h)
  /-- A number of a signed word has the right sign. -/
  | signed {k : Nat} {s : Int} (h : Wide s) (hs : s = (-1) ^ k * n)
    (hn : n.natAbs < 9223372036854775808) : Negates n k (.whole s h)
  /-- A number beyond the signed word is rounded. -/
  | double {k : Nat} {x : Double} (hx : Double.ofInt? ((-1) ^ k * n) = some x)
    (hn : 9223372036854775808 ≤ n) : Negates n k (.double x)

section Numbers

variable {n s : Int} {k : Nat} {m : Number} {x : Double}

/-- One further minus sign. -/
lemma pow_succ_mul (k : Nat) (n : Int) : (-1) ^ (k + 1) * n = -((-1) ^ k * n) := by
  ring

/-- The magnitude is the same behind minus signs. -/
lemma natAbs_pow_mul (k : Nat) (n : Int) : ((-1) ^ k * n).natAbs = n.natAbs := by
  rw [Int.natAbs_mul, Int.natAbs_pow, Int.natAbs_neg, Int.natAbs_one, Nat.one_pow, Nat.one_mul]

/-- A minus sign in front of a whole number of a signed word. -/
lemma negate?_signed (h : Wide s) (hs : s.natAbs < 9223372036854775808) :
    ∃ hneg : Wide (-s), negate? (.whole s h) = some (.num (.whole (-s) hneg)) := by
  have hneg : Wide (-s) := by omega
  refine ⟨hneg, ?_⟩
  have hsigned : (Number.whole s h).signed? = some s := if_pos (by omega)
  rw [negate?_of_signed hsigned (by omega), Number.ofInt, dif_pos hneg]

/-- The least number of a signed word has no negative. -/
lemma negate?_least (h : Wide n) (hn : n = -9223372036854775808) :
    negate? (.whole n h) = none := by
  rw [negate?_eq_none_iff, Number.signed?, if_pos (by omega), hn]

/-- A minus sign in front of a number that is not one of a signed word, and is large. -/
lemma negate?_large (hsigned : m.signed? = none) (hm : m.toDouble = x)
    (hx : 2 ^ 53 * Double.one ≤ x.units) : negate? m = some (.num (.double x.neg)) := by
  have hneg : 2 ^ 53 * Double.one ≤ x.neg.units := hx
  simp only [negate?, hsigned, hm, numberValue_of_large hneg]

/-- Doubles that large numbers are rounded to are large. -/
lemma le_units_of_ofInt? (hs : 9223372036854775808 ≤ s.natAbs) (hx : Double.ofInt? s = some x) :
    2 ^ 53 * Double.one ≤ x.units := by
  have hlarge : 2 ^ 53 ≤ s.natAbs := by omega
  exact (Double.le_units_of_ofRatio? hlarge hx).2

/-- **One further minus sign**, unless it is the first one in front of the least number. -/
theorem Negates.step (h : Negates n k m) (hleast : n ≠ -9223372036854775808) :
    ∃ m', negate? m = some (.num m') ∧ Negates n (k + 1) m' := by
  have hsmall : ∀ {s : Int} (hs : Wide s), s = (-1) ^ k * n → n.natAbs < 9223372036854775808 →
      ∃ m', negate? (.whole s hs) = some (.num m') ∧ Negates n (k + 1) m' := by
    intro s hs heq hn
    have hsame : s.natAbs = n.natAbs := heq ▸ natAbs_pow_mul k n
    obtain ⟨hneg, hvalue⟩ := negate?_signed hs (by omega)
    exact ⟨_, hvalue, .signed hneg (by rw [pow_succ_mul, heq]) hn⟩
  cases h with
  | start h =>
    rcases lt_or_ge n 9223372036854775808 with hlt | hge
    · exact hsmall h (by rw [pow_zero, one_mul]) (by omega)
    · obtain ⟨x, hx⟩ := Double.exists_ofInt?_of_lt (n := n) (by omega)
      have hdouble : (Number.whole n h).toDouble = x := by
        rw [Number.toDouble, hx, Option.getD_some]
      have hsigned : (Number.whole n h).signed? = none := if_neg (by omega)
      refine ⟨_, negate?_large hsigned hdouble (le_units_of_ofInt? (by omega) hx), .double ?_ hge⟩
      rw [pow_succ_mul, pow_zero, one_mul, Double.ofInt?_neg (by omega), hx, Option.map_some]
  | signed h hs hn => exact hsmall h hs hn
  | @double _ x hx hn =>
    have habs := natAbs_pow_mul k n
    have hvalue := negate?_large (m := .double x) rfl rfl (le_units_of_ofInt? (by omega) hx)
    refine ⟨_, hvalue, .double ?_ hn⟩
    rw [pow_succ_mul, Double.ofInt?_neg (by omega), hx, Option.map_some]
    rfl

/-- The number behind minus signs is near to what it should be. -/
lemma Negates.isNear (h : Negates n k m) : m.IsNear ((-1) ^ k * n) := by
  cases h with
  | start h =>
    rw [pow_zero, one_mul]
    exact .whole h
  | signed h hs hn =>
    subst hs
    exact .whole h
  | double hx hn => exact .double hx

/-- Whole numbers of at most 53 bits have the right sign. -/
lemma Negates.eq_ofInt (h : Negates n k m) (hn : n.natAbs ≤ maxSafe) :
    m = .ofInt ((-1) ^ k * n) := by
  unfold maxSafe at hn
  cases h with
  | start h => rw [pow_zero, one_mul, Number.ofInt, dif_pos h]
  | signed h hs _ =>
    subst hs
    rw [Number.ofInt, dif_pos h]
  | double hx hlarge => omega

end Numbers

/-! ## Texts with minus signs -/

/-- The text is the name `x` behind `k` minus signs, with brackets anywhere between them. -/
inductive IsNegated : Nat → String → Prop
  /-- The name. -/
  | name : IsNegated 0 "x"
  /-- Brackets. -/
  | bracketed {k : Nat} {e : String} (h : IsNegated k e) : IsNegated k ("(" ++ e ++ ")")
  /-- A minus sign. -/
  | negated {k : Nat} {e : String} (h : IsNegated k e) : IsNegated (k + 1) ("-" ++ e)

/-- The value behind `k` minus signs. -/
def applySigns (v : Option Value) : Nat → Except Failure (Option Value)
  | 0 => .ok v
  | k + 1 => applySigns v k >>= applySign true

/-- Minus signs in front of a whole number do not fail, unless it is the least one. -/
lemma exists_applySigns {n : Int} (h : Wide n) {k : Nat}
    (hleast : ¬(n = -9223372036854775808 ∧ 0 < k)) :
    ∃ m, applySigns (some (.num (.whole n h))) k = .ok (some (.num m)) ∧ Negates n k m := by
  induction k with
  | zero => exact ⟨_, rfl, .start h⟩
  | succ k ih =>
    have hn : n ≠ -9223372036854775808 := fun hn => hleast ⟨hn, Nat.succ_pos k⟩
    obtain ⟨m, hm, hnegates⟩ := ih fun hboth => hn hboth.1
    obtain ⟨m', hm', hnegates'⟩ := hnegates.step hn
    refine ⟨m', ?_, hnegates'⟩
    rw [applySigns, hm, ok_bind, applySign_of_negate? hm']

/-- The first minus sign in front of the least whole number overflows. -/
lemma applySigns_least {n : Int} (h : Wide n) (hn : n = -9223372036854775808) (k : Nat) :
    applySigns (some (.num (.whole n h))) (k + 1) = .error .overflow := by
  induction k with
  | zero => exact applySign_overflow (negate?_least h hn)
  | succ k ih =>
    rw [applySigns, ih]
    rfl

section Texts

variable {k : Nat} {e : String}

/-- A name behind minus signs is read in the same way wherever it stands. -/
lemma IsNegated.exists_scans (h : IsNegated k e) (o : Nat) {left : List Glyph}
    (hleft : left.head?.any (fun g => continuesWord g.char) = false) :
    ∃ ts tree, Scans (locate o e.toList ++ left) ts left ∧
      (∀ us, IsEnd us → Reads substitutionExpr .unary (ts ++ us) (.expr tree) us) ∧
      ∀ scope, tree.eval scope = lookup scope "x" >>= (applySigns · k) := by
  induction h generalizing o left with
  | name =>
    obtain ⟨t, hscans, ht, -⟩ :=
      @exists_scans_word 'x' [] rfl rfl (List.forall_mem_nil _) o left hleft
    refine ⟨[t], .name "x", hscans, fun us hus => ?_, fun scope => ?_⟩
    · have hcall : atSign '(' us = false := by
        rcases hus with rfl | ⟨close, rest, c, rfl, hclose, hc⟩
        · rfl
        · exact hclose.atSign_eq_false (by rintro rfl; exact absurd hc (by decide)) rest
      exact reads_unary_of_primary (.name ht rfl (by decide) hcall) hus
    · rw [Expr.eval]
      cases lookup scope "x" <;> rfl
  | @bracketed k e h ih =>
    let stop := o + 1 + Text.byteCount e.toList
    have hstop : (⟨stop, ')'⟩ :: left).head?.any (fun g => continuesWord g.char) = false := rfl
    obtain ⟨ts, tree, hinside, hreads, heval⟩ := ih (o + 1) hstop
    obtain ⟨close, hlast, hclose, -⟩ := exists_scans_sign (c := ')') left rfl stop
    obtain ⟨open', hopen, hopenSign, -⟩ :=
      exists_scans_sign (c := '(') (locate (o + 1) e.toList ++ ⟨stop, ')'⟩ :: left) rfl o
    refine ⟨open' :: (ts ++ [close]), tree, ?_, fun us hus => ?_, heval⟩
    · rw [locate_bracketed, locate_append_single (o + 1) e.toList rfl, List.cons_append,
        List.append_assoc]
      exact hopen.append (hinside.append hlast)
    · have hend : IsEnd (close :: us) := .of_isPunct hclose (by decide) us
      have hexpression := reads_expression_of_unary (hreads (close :: us) hend) hend
      have hprimary := Reads.bracketed hopenSign hexpression hclose
      simpa using reads_unary_of_primary hprimary hus
  | @negated k e h ih =>
    obtain ⟨ts, tree, hinside, hreads, heval⟩ := ih (o + 1) hleft
    obtain ⟨minus, hminus, hsign, -⟩ :=
      exists_scans_sign (c := '-') (locate (o + 1) e.toList ++ left) rfl o
    refine ⟨minus :: ts, .signed true tree, ?_, fun us hus => ?_, fun scope => ?_⟩
    · rw [String.toList_append]
      exact hminus.append hinside
    · exact .signed true hsign (hreads us hus)
    · rw [Expr.eval, heval, bind_assoc]
      rfl

/-- A body that returns a name behind minus signs has the value of the name behind them. -/
lemma IsNegated.evaluate (he : IsNegated k e) {bindings : List (String × Value)}
    {v : Option Value} (hx : lookup (scopeOf bindings) "x" = .ok v) :
    evaluate bindings ("return " ++ e) = (applySigns v k).map (·.getD .null) := by
  have hstop : ([] : List Glyph).head?.any (fun g => continuesWord g.char) = false := rfl
  obtain ⟨ts, tree, hscans, hreads, heval⟩ := he.exists_scans 7 hstop
  rw [List.append_nil] at hscans
  have hend : IsEnd [] := .inl rfl
  have hexpression := reads_expression_of_unary (hreads [] hend) hend
  rw [List.append_nil] at hexpression
  rw [evaluate_eq_map, evaluateIn_of_reads _ hscans.lexemes_of_nil hexpression, heval, hx, ok_bind]

/-- **A name behind minus signs.** A run of the body crashes just if the name is bound to the least
number of a signed word and a minus sign stands in front of it. Otherwise the run ends with a
number: the whole number is negated once for each sign, exactly if it has at most 53 bits, and at
least to the nearest double.

**Proof sketch.** The run gives what the evaluation gives (`Interpreter.evaluateBody_eq`), which is
followed by induction on the number of signs: one more sign keeps what is claimed of the number, up
to its sign (`Negates.step`), and nothing comes behind the overflow at the least number
(`applySigns_least`). -/
theorem evaluateBody_negated {bindings : List (String × Value)} {n : Int} (h : Wide n)
    (hx : lookup (scopeOf bindings) "x" = .ok (some (.num (.whole n h)))) (he : IsNegated k e) :
    (Interpreter.evaluateBody true bindings ("return " ++ e) = Run.crash ↔
      n = -9223372036854775808 ∧ 0 < k) ∧
    (¬(n = -9223372036854775808 ∧ 0 < k) → ∃ m,
      Interpreter.evaluateBody true bindings ("return " ++ e) = pure (.num m) ∧
        (n.natAbs ≤ maxSafe → m = .ofInt ((-1) ^ k * n)) ∧ m.IsNear ((-1) ^ k * n)) := by
  rw [Interpreter.evaluateBody_eq, he.evaluate hx]
  by_cases hleast : n = -9223372036854775808 ∧ 0 < k
  · obtain ⟨hn, hk⟩ := hleast
    obtain ⟨j, rfl⟩ := Nat.exists_eq_add_one.2 hk
    rw [applySigns_least h hn]
    exact ⟨iff_of_true rfl ⟨hn, hk⟩, fun hnot => absurd ⟨hn, hk⟩ hnot⟩
  · obtain ⟨m, hm, hnegates⟩ := exists_applySigns h hleast
    rw [hm]
    exact ⟨iff_of_false nofun hleast, fun _ => ⟨m, rfl, hnegates.eq_ofInt, hnegates.isNear⟩⟩

/-- A minus sign in front of the least number of a signed word, and in front of another one. -/
theorem evaluateBody_negated_least :
    let least := Value.num (.whole (-9223372036854775808) (by decide))
    let five := Value.num (.whole 5 (by decide))
    IsNegated 1 "-(x)" ∧
      lookup (scopeOf [("x", least)]) "x" = .ok (some least) ∧
      lookup (scopeOf [("x", five)]) "x" = .ok (some five) ∧
      Interpreter.evaluateBody true [("x", least)] "return -(x)" = Run.crash ∧
      Interpreter.evaluateBody true [("x", five)] "return -(x)" = pure (.num (.ofInt (-5))) := by
  have he : IsNegated 1 "-(x)" := .negated (.bracketed .name)
  have hfive : lookup (scopeOf [("x", .num (.whole 5 (by decide)))]) "x" =
      .ok (some (.num (.whole 5 (by decide)))) := rfl
  refine ⟨he, rfl, hfive, (evaluateBody_negated (by decide) rfl he).1.2 ⟨rfl, one_pos⟩, ?_⟩
  obtain ⟨m, hrun, hexact, -⟩ := (evaluateBody_negated (by decide) hfive he).2 (by decide)
  obtain rfl : m = .ofInt (-5) := hexact (by decide)
  exact hrun

end Texts

end Script

end CardTable
