import CardTable.Proofs.Script.Grammar.Pieces

set_option autoImplicit false

/-!
# Infix operators

A body that returns two expressions in brackets with an infix operator between them is evaluated.
Behind an expression the reader looks for eleven signs only, and behind a `return` it does not look
for the end of the statement: so an operator that begins with one of these signs is refused, and
any other one is overlooked, with everything behind it.

## Main definitions

* `CardTable.Script.InfixOperator` — the infix operators; `body` is the body that returns an
  operator between its operands.
* `CardTable.Script.InfixOperator.refusedSign?` — the sign at which an operator is refused.
* `CardTable.Script.IsOperand` — a text that is an expression with a value.

## Main results

* `CardTable.Script.evaluate_infix` — what a body with an infix operator gives.
-/

namespace CardTable.Script

open Reader

/-! ## Operators -/

/-- The infix operators, the conditional one included. -/
inductive InfixOperator where
  | add | subtract | multiply | divide | remainder | power
  | bitAnd | bitOr | bitXor | shiftLeft | shiftRight | shiftRightUnsigned
  | equal | notEqual | same | notSame | less | greater | atMost | atLeast
  | and | or | coalesce | memberOf | instanceOf | comma | conditional
deriving DecidableEq

namespace InfixOperator

/-- The characters that spell an operator; those of the conditional one up to its second
operand. -/
def spelling : InfixOperator → List Char
  | .add => ['+']
  | .subtract => ['-']
  | .multiply => ['*']
  | .divide => ['/']
  | .remainder => ['%']
  | .power => ['*', '*']
  | .bitAnd => ['&']
  | .bitOr => ['|']
  | .bitXor => ['^']
  | .shiftLeft => ['<', '<']
  | .shiftRight => ['>', '>']
  | .shiftRightUnsigned => ['>', '>', '>']
  | .equal => ['=', '=']
  | .notEqual => ['!', '=']
  | .same => ['=', '=', '=']
  | .notSame => ['!', '=', '=']
  | .less => ['<']
  | .greater => ['>']
  | .atMost => ['<', '=']
  | .atLeast => ['>', '=']
  | .and => ['&', '&']
  | .or => ['|', '|']
  | .coalesce => ['?', '?']
  | .memberOf => ['i', 'n']
  | .instanceOf => ['i', 'n', 's', 't', 'a', 'n', 'c', 'e', 'o', 'f']
  | .comma => [',']
  | .conditional => ['?']

/-- The text of an operator. -/
def text (op : InfixOperator) : String :=
  String.ofList op.spelling

/-- What stands behind the second operand: the third operand of the conditional operator. -/
def tail (op : InfixOperator) (g : String) : String :=
  if op = .conditional then " : (" ++ g ++ ")" else ""

/-- The operator between the operands `e` and `f`, each in brackets. The conditional operator has
`g` as a third operand. -/
def source (op : InfixOperator) (e f g : String) : String :=
  "(" ++ e ++ ") " ++ op.text ++ " (" ++ f ++ ")" ++ op.tail g

/-- The body that returns the operator between its operands. -/
def body (op : InfixOperator) (e f g : String) : String :=
  "return " ++ op.source e f g

/-- The sign at which the operator is refused; `none` if it is overlooked. -/
def refusedSign? (op : InfixOperator) : Option Char :=
  match op with
  | .bitXor | .notEqual | .notSame | .memberOf | .instanceOf | .comma => none
  | op => op.spelling.head?

/-- The first token of an operator is `t`, with `us` behind it, and it is refused or overlooked as
it should be. -/
def IsHead (op : InfixOperator) (t : Lexeme) (us : List Lexeme) : Prop :=
  match op.refusedSign? with
  | some c => c ∈ operatorSigns ∧ IsPunct c t ∧ ¬ (c = '=' ∧ atSign '>' us = true)
  | none => endsLinks (t :: us) = true ∧ EndsExpression (t :: us) ∧ ¬ startsCast t

/-- Whether an operator is a word. -/
def isWord (op : InfixOperator) : Bool :=
  op == .memberOf || op == .instanceOf

/-- An operator that is a word is overlooked, and it is not taken for a cast. -/
lemma exists_of_isWord {op : InfixOperator} (h : op.isWord = true) :
    op.refusedSign? = none ∧ isCast op.text = false ∧
      ∃ c cs, op.spelling = c :: cs ∧ startsWord c = true ∧ isGap c = false ∧
        ∀ d ∈ cs, continuesWord d = true := by
  cases op
  case memberOf | instanceOf => exact ⟨rfl, rfl, _, _, rfl, by decide, by decide, by decide⟩
  all_goals exact absurd h (by decide)

/-- Any other operator is spelt in signs, and if it is refused, then by the first one of them. -/
lemma exists_of_not_isWord {op : InfixOperator} (h : op.isWord = false) :
    ∃ c cs, op.spelling = c :: cs ∧ standAlone (some ' ') (c :: cs) = true ∧
      if op.refusedSign? = none then c ∈ [',', '^'] ∨ c = '!' ∧ cs.head? = some '='
      else op.refusedSign? = some c ∧ c ∈ operatorSigns ∧ (c = '=' → cs.head? = some '=') := by
  cases op
  case memberOf | instanceOf => exact absurd h (by decide)
  all_goals exact ⟨_, _, rfl, by decide, by decide⟩

/-- The sign behind an operator that is spelt in signs. -/
lemma atSign_of_signs {cs : List Char} {us : List Lexeme} (h : List.Forall₂ IsPunct cs us)
    {t : Lexeme} (ht : IsPunct '(' t) (rest : List Lexeme) (c : Char) :
    atSign c (us ++ t :: rest) = (c == cs.head?.getD '(') := by
  cases h with
  | nil => exact ht.atSign_cons rest
  | cons hu => exact hu.atSign_cons _

/-- The tokens of an operator in front of a bracket. -/
lemma exists_scans (op : InfixOperator) (o o' : Nat) (left : List Glyph) :
    ∃ t us, Scans (locate o op.spelling ++ ⟨o', ' '⟩ :: left) (t :: us) (⟨o', ' '⟩ :: left) ∧
      t.offset = o ∧ ∀ open' rest, IsPunct '(' open' → op.IsHead t (us ++ open' :: rest) := by
  cases hop : op.isWord with
  | true =>
    obtain ⟨hrefused, hcast, c, cs, hspelling, hstart, hgap, hcs⟩ := exists_of_isWord hop
    obtain ⟨t, hscans, ht, hoffset, -⟩ :=
      exists_scans_word hstart hgap hcs o (⟨o', ' '⟩ :: left) rfl
    rw [← hspelling] at hscans ht
    refine ⟨t, [], hscans, hoffset, fun open' rest _ => ?_⟩
    rw [IsHead, hrefused]
    refine ⟨endsLinks_of_word ht, fun d _ => atSign_eq_false (by simp [ht]), ?_⟩
    rintro ⟨w, hw, hcast'⟩
    obtain rfl : String.ofList op.spelling = w := by simpa [ht] using hw
    exact absurd hcast' (by rw [← text, hcast]; decide)
  | false =>
    obtain ⟨c, cs, hspelling, halone, hsigns⟩ := exists_of_not_isWord hop
    obtain ⟨_, hscans, hts, hoffset⟩ := exists_scans_signs (⟨o', ' '⟩ :: left) halone o
    rcases hts with - | ⟨ht, hus⟩
    rename_i t us
    refine ⟨t, us, hspelling ▸ hscans, hoffset t rfl, fun open' rest hopen => ?_⟩
    have hnext := atSign_of_signs hus hopen rest
    rw [IsHead]
    split at hsigns
    · next hrefused =>
      rw [hrefused]
      have hplain : c ∉ operatorSigns := by
        rcases hsigns with hc | ⟨rfl, -⟩
        · have hsign : ∀ d ∈ [',', '^'], d ∉ operatorSigns := by decide
          exact hsign c hc
        · decide
      refine ⟨?_, fun d hd => ht.atSign_eq_false (by rintro rfl; exact hplain hd) _, ?_⟩
      · rcases hsigns with hc | ⟨rfl, hequals⟩
        · have hlink : ∀ d ∈ [',', '^'], d ∉ ['.', '[', '(', '!'] := by decide
          exact endsLinks_of_isPunct ht (hlink c hc)
        · simp [endsLinks, show t.token = _ from ht, hnext, hequals]
      · exact not_startsCast_of_isPunct ht
    · obtain ⟨hrefused, hmem, hequals⟩ := hsigns
      rw [hrefused]
      refine ⟨hmem, ht, ?_⟩
      rintro ⟨rfl, harrow⟩
      rw [hnext, hequals rfl] at harrow
      exact absurd harrow (by decide)

end InfixOperator

/-! ## Operands -/

/-- The text `e` is an expression with the value `v`: with a closing bracket behind it, it is read
as one up to that bracket. -/
def IsOperand (bindings : List (String × Value)) (e : String) (v : Option Value) : Prop :=
  ∃ ts close fin tree, Scans (locate 0 (e.toList ++ [')'])) (ts ++ [close]) [] ∧
    IsPunct ')' close ∧ (expression fin substitutionExpr (ts ++ [close])).IsWhole tree [close] ∧
    tree.eval (scopeOf bindings) = .ok v

/-- A literal is an operand. -/
lemma isOperand_of_atom {bindings : List (String × Value)} {e : String} {v : Option Value}
    {t close : Lexeme} {tree : Expr} (hscans : Scans (locate 0 (e.toList ++ [')'])) [t, close] [])
    (hclose : IsPunct ')' close) (ht : atom? substitutionExpr t.token = some tree)
    (heval : tree.eval (scopeOf bindings) = .ok v) : IsOperand bindings e v := by
  have hreads := reads_expression_of_unary
    (reads_unary_of_primary (.atom ht) (.of_isPunct hclose (by decide) []))
    (.of_isPunct hclose (by decide) [])
  exact ⟨[t], close, ⟨0, 0⟩, tree, hscans, hclose, (expression_isWhole_iff _).2 hreads, heval⟩

/-- An operand is an expression that is read up to a closing bracket. -/
lemma IsOperand.exists_fills {bindings : List (String × Value)} {e : String} {v : Option Value}
    (h : IsOperand bindings e v) : ∃ tree, Fills ')' .expression e.toList (.expr tree) ∧
      tree.eval (scopeOf bindings) = .ok v := by
  obtain ⟨ts, close, fin, tree, hscans, hclose, hwhole, heval⟩ := h
  exact ⟨tree, ⟨ts, close, hscans, hclose, (expression_isWhole_iff fin).1 hwhole⟩, heval⟩

/-- An operand in brackets is read in the same way wherever it stands, and has its value. -/
lemma IsOperand.exists_scans {bindings : List (String × Value)} {e : String} {v : Option Value}
    (h : IsOperand bindings e v) (o : Nat) (left : List Glyph) :
    ∃ open' ts close tree, Scans (⟨o, '('⟩ :: (locate (o + 1) (e.toList ++ [')']) ++ left))
        (open' :: (ts ++ [close])) left ∧ IsPunct '(' open' ∧ IsPunct ')' close ∧
      tree.eval (scopeOf bindings) = .ok v ∧
      ∀ rest, Reads substitutionExpr .expression (ts ++ close :: rest) (.expr tree)
        (close :: rest) := by
  obtain ⟨tree, hfills, heval⟩ := h.exists_fills
  obtain ⟨ts, close, node, hscans, hclose, hrefines, -, hreads⟩ :=
    hfills.closed (by decide) (d := ')') (by decide) (o + 1) left
  obtain ⟨tree', rfl, hrefines⟩ := hrefines.exists_expr
  obtain ⟨open', hopen, hpunct, -, -⟩ :=
    exists_scans_sign (c := '(') (locate (o + 1) (e.toList ++ [')']) ++ left) rfl o
  refine ⟨open', ts, close, tree', hopen.append hscans, hpunct, hclose, hrefines _ _ heval,
    fun rest => hreads _ ?_⟩
  exact IsEnd.of_isPunct hclose (by decide) rest

/-- An operand in brackets has its value. -/
lemma IsOperand.evaluate_bracketed {bindings : List (String × Value)} {e : String}
    {v : Option Value} (h : IsOperand bindings e v) :
    evaluate bindings ("return (" ++ e ++ ")") = .ok (v.getD .null) := by
  obtain ⟨open', ts, close, tree, hscans, hopen, hclose, heval, hreads⟩ := h.exists_scans 7 []
  have hends : IsEnd [] := .inl rfl
  rw [List.append_nil, ← locate_bracketed] at hscans
  rw [return_bracketed, evaluate_of_reads bindings hscans (reads_expression_of_unary
    (reads_unary_of_primary (.bracketed hopen (hreads []) hclose) hends) hends), heval]
  rfl

/-! ## Operators between operands -/

namespace Reader

variable {fin : TextEnd} {inner : Substitution → Expr} {ts us : List Lexeme} {t : Lexeme} {e : Expr}

/-- An expression with a sign behind it at which it is refused. -/
lemma expression_of_refused (h : (unary fin inner ts).IsWhole e (t :: us)) {c : Char}
    (ht : IsPunct c t) (hc : c ∈ operatorSigns) (harrow : ¬ (c = '=' ∧ atSign '>' us = true)) :
    (expression fin inner ts).tree = .cut (some e) ⟨t.offset, .operator c⟩ := by
  have hcast := not_startsCast_of_isPunct ht
  have hfind : operatorSigns.find? (atSign · (t :: us)) = some c := by
    simp only [ht.atSign_cons]
    revert hc
    clear * -
    revert c
    decide
  have hcut : ¬ (atSign '=' (t :: us) = true ∧ atSign '>' (t :: us).tail = true) := by
    rintro ⟨hequals, hgreater⟩
    rw [ht.atSign_cons, beq_iff_eq] at hequals
    exact harrow ⟨hequals.symm, hgreater⟩
  obtain ⟨_, h⟩ := h
  rw [expression, h]
  simp only [skipCasts_of_not_startsCast hcast, if_neg hcut, hfind]
  rfl

end Reader

/-- What stands behind the second operand has tokens. -/
lemma InfixOperator.exists_scans_tail {bindings : List (String × Value)} {g : String}
    (op : InfixOperator) (hg : op = .conditional → ∃ w, IsOperand bindings g w) (o : Nat) :
    ∃ ts, Scans (locate o (op.tail g).toList) ts [] := by
  by_cases hop : op = .conditional
  · obtain ⟨w, hw⟩ := hg hop
    obtain ⟨open', ts, close, tree, hscans, -⟩ := hw.exists_scans (o + 3) []
    obtain ⟨colon, hcolon, -⟩ := exists_scans_sign (c := ':')
      (⟨o + 2, ' '⟩ :: ⟨o + 3, '('⟩ :: (locate (o + 4) (g.toList ++ [')']) ++ [])) rfl (o + 1)
    have htail : locate o (op.tail g).toList = ⟨o, ' '⟩ :: ⟨o + 1, ':'⟩ :: ⟨o + 2, ' '⟩ ::
        ⟨o + 3, '('⟩ :: (locate (o + 4) (g.toList ++ [')']) ++ []) := by
      rw [tail, if_pos hop, List.append_nil]
      simp only [String.toList_append, List.append_assoc]
      rfl
    rw [htail]
    exact ⟨_, (hcolon.append (hscans.blank (o + 2))).blank o⟩
  · rw [tail, if_neg hop]
    exact ⟨[], .nil []⟩

/-- The tokens of two operands with an operator between them: the first operand is read up to its
closing bracket, and the operator stands behind it. -/
lemma InfixOperator.exists_scans_source {bindings : List (String × Value)} {e f g : String}
    {v v' : Option Value} (op : InfixOperator) (he : IsOperand bindings e v)
    (hf : IsOperand bindings f v') (hg : op = .conditional → ∃ w, IsOperand bindings g w) :
    ∃ open' rs close t us tree,
      Scans (locate 7 (op.source e f g).toList) (open' :: (rs ++ close :: t :: us)) [] ∧
      IsPunct '(' open' ∧ IsPunct ')' close ∧ t.offset = 10 + Text.byteCount e.toList ∧
      op.IsHead t us ∧ tree.eval (scopeOf bindings) = .ok v ∧
      Reads substitutionExpr .expression (rs ++ close :: t :: us) (.expr tree)
        (close :: t :: us) := by
  let o := 10 + Text.byteCount e.toList
  let o' := o + Text.byteCount op.spelling
  let o'' := o' + 2 + Text.byteCount (f.toList ++ [')'])
  let second := ⟨o' + 1, '('⟩ ::
    (locate (o' + 2) (f.toList ++ [')']) ++ locate o'' (op.tail g).toList)
  obtain ⟨ws, htail⟩ := op.exists_scans_tail hg o''
  obtain ⟨open₂, us, close₂, -, hf, hopen₂, -⟩ :=
    hf.exists_scans (o' + 1) (locate o'' (op.tail g).toList)
  obtain ⟨t, ts, hop, hoffset, hhead⟩ := op.exists_scans o o' second
  obtain ⟨open₁, rs, close₁, tree, he, hopen₁, hclose₁, heval, hreads⟩ :=
    he.exists_scans 7 (⟨o - 1, ' '⟩ :: (locate o op.spelling ++ ⟨o', ' '⟩ :: second))
  have hsource : locate 7 (op.source e f g).toList = ⟨7, '('⟩ :: (locate 8 (e.toList ++ [')']) ++
      ⟨o - 1, ' '⟩ :: (locate o op.spelling ++ ⟨o', ' '⟩ :: second)) := by
    have hchars : (op.source e f g).toList = '(' :: (e.toList ++ [')'] ++
        ' ' :: (op.spelling ++ ' ' :: '(' :: (f.toList ++ [')'] ++ (op.tail g).toList))) := by
      simp [source, text]
    have hblank : 8 + Text.byteCount (e.toList ++ [')']) = o - 1 := by
      rw [Text.byteCount_append]
      change 8 + (Text.byteCount e.toList + 1) = 10 + Text.byteCount e.toList - 1
      omega
    have ho : o - 1 + 1 = o := by omega
    rw [hchars, locate_single 7 rfl, locate_append_single 8 (e.toList ++ [')']) rfl, hblank, ho,
      locate_append_single o op.spelling rfl, locate_single (o' + 1) rfl,
      locate_append _ _ (op.tail g).toList]
  have hbehind := (hf.append htail).blank o'
  have hscans := he.append ((hop.append hbehind).blank (o - 1))
  rw [hsource]
  refine ⟨open₁, rs, close₁, t, _, tree, ?_, hopen₁, hclose₁, hoffset, hhead _ _ hopen₂, heval,
    hreads (t :: (ts ++ open₂ :: (us ++ close₂ :: ws)))⟩
  simpa using hscans

/-- **A body with an infix operator** is refused at the first sign of the operator, or it gives the
value of the first operand: `^`, `!=`, `!==`, `in`, `instanceof` and the comma are overlooked, with
the operand behind them.

**Proof sketch.** The bracketed operand is read to its end. A sign that is refused behind an operand
cuts the expression short there; every other operator ends the expression in front of it, and the
result is the value of the operand. -/
theorem evaluate_infix {bindings : List (String × Value)} {e f g : String} {v v' : Option Value}
    (op : InfixOperator) (he : IsOperand bindings e v) (hf : IsOperand bindings f v')
    (hg : op = .conditional → ∃ w, IsOperand bindings g w) :
    evaluate bindings (op.body e f g) =
      match op.refusedSign? with
      | some c => .error (.fault ⟨10 + Text.byteCount e.toList, .operator c⟩)
      | none => .ok (v.getD .null) := by
  obtain ⟨open', rs, close, t, us, tree, hscans, hopen, hclose, hoffset, hhead, heval, hreads⟩ :=
    op.exists_scans_source he hf hg
  obtain ⟨fin, hbody⟩ := evaluate_of_result bindings hscans (List.cons_ne_nil _ _) fun c hc =>
    hopen.atSign_eq_false (by rintro rfl; exact absurd hc (by decide)) _
  rw [InfixOperator.body, hbody]
  unfold InfixOperator.IsHead at hhead
  -- an operator that is refused is no access either, so the bracketed operand ends in front of it
  have hplain : ∀ c ∈ operatorSigns, c ∉ ['.', '[', '(', '!'] := by decide
  have hends : endsLinks (t :: us) = true := by
    split at hhead
    · next c _ => exact endsLinks_of_isPunct hhead.2.1 (hplain c hhead.1)
    · exact hhead.1
  have hunary := gives_of_reads fin (.plain (.bracketed hopen hreads hclose) (.linksEnd hends))
  split
  · next c hrefused =>
    rw [hrefused] at hhead
    obtain ⟨hc, ht, harrow⟩ := hhead
    rw [expression_of_refused hunary ht hc harrow, ← hoffset]
    simp [Expr.eval, linked, heval, bind, Except.bind, Except.map]
  · next hrefused =>
    rw [hrefused] at hhead
    obtain ⟨-, hend, hcast⟩ := hhead
    have hwhole := expression_isWhole fin hunary (by rwa [skipCasts_of_not_startsCast hcast])
    obtain ⟨_, hwhole⟩ := hwhole
    rw [hwhole]
    simp [Reading.tree, linked, heval, Except.map]

/-- The exclusive or of two truth values gives the first one. -/
theorem evaluate_true_bitXor_false :
    IsOperand [] "true" (some (.bool true)) ∧ IsOperand [] "false" (some (.bool false)) ∧
      evaluate [] "return (true) ^ (false)" = .ok (.bool true) := by
  have htrue : IsOperand [] "true" (some (.bool true)) :=
    isOperand_of_atom (.cons (skipGap_of_not_isGap _ rfl (by decide)) rfl
      (.cons (skipGap_of_not_isGap _ rfl (by decide)) rfl (.nil []))) rfl rfl rfl
  have hfalse : IsOperand [] "false" (some (.bool false)) :=
    isOperand_of_atom (.cons (skipGap_of_not_isGap _ rfl (by decide)) rfl
      (.cons (skipGap_of_not_isGap _ rfl (by decide)) rfl (.nil []))) rfl rfl rfl
  have hbody : InfixOperator.bitXor.body "true" "false" "" = "return (true) ^ (false)" := by decide
  exact ⟨htrue, hfalse, hbody ▸ evaluate_infix .bitXor htrue hfalse nofun⟩

end CardTable.Script
