import CardTable.Proofs.Script.Grammar.Annotations
import CardTable.Proofs.Script.Grammar.Completeness

set_option autoImplicit false

/-!
# Scanning texts piece by piece

A text is put together from pieces, and its tokens from the tokens of the pieces.

## Main definitions

* `CardTable.Script.evaluateIn` — the value of a body in a scope.

## Main results

* `CardTable.Script.exists_scans_word`, `CardTable.Script.exists_scans_signs` — pieces that are
  words, and pieces that consist of signs.
* `CardTable.Script.evaluateIn_of_result`, `CardTable.Script.evaluateIn_of_reads` — the value of a
  body that returns an expression.
-/

namespace CardTable.Script

/-! ## Pieces that stand elsewhere -/

/-- A text that stands at two offsets. -/
lemma twin_locate (i j : Nat) (cs : List Char) : Twin i j (locate j cs) (locate i cs) := by
  have hmoved : ∀ n m, n + i = m + j → Twin i j (locate n cs) (locate m cs) := by
    induction cs with
    | nil => exact fun _ _ _ => .nil
    | cons c rest ih => exact fun n m h => .cons ⟨rfl, h⟩ (ih _ _ (by omega))
  exact hmoved j i (Nat.add_comm j i)

/-- Behind a character of one byte the text goes on at the next offset. -/
lemma locate_single {c : Char} (o : Nat) (hc : c.utf8Size = 1) (cs : List Char) :
    locate o (c :: cs) = ⟨o, c⟩ :: locate (o + 1) cs := by
  rw [locate, hc]

/-- The same of a character behind a piece. -/
lemma locate_append_single {c : Char} (o : Nat) (cs : List Char) (hc : c.utf8Size = 1)
    (ds : List Char) : locate o (cs ++ c :: ds) =
      locate o cs ++ ⟨o + Text.byteCount cs, c⟩ :: locate (o + Text.byteCount cs + 1) ds := by
  rw [locate_append, locate_single _ hc]

/-! ## Blanks -/

/-- A blank is skipped. -/
lemma skipGap_blank (o : Nat) (cs : List Glyph) : skipGap (⟨o, ' '⟩ :: cs) = skipGap cs := by
  rw [skipGap_of_isGap cs rfl]
  rcases skipGap cs with f | ⟨broken, behind⟩ <;> rfl

/-- In front of tokens a blank is skipped. -/
lemma Scans.blank {cs left : List Glyph} {t : Lexeme} {ts : List Lexeme}
    (h : Scans cs (t :: ts) left) (o : Nat) : Scans (⟨o, ' '⟩ :: cs) (t :: ts) left := by
  cases h with
  | cons hgap htoken hscans => exact .cons ((skipGap_blank o cs).trans hgap) htoken hscans

/-- A token at the front of a text. -/
lemma Scans.first {g : Glyph} {rest behind left : List Glyph} {t : Token} {ts : List Lexeme}
    (hgap : isGap g.char = false) (hslash : g.char ≠ '/') (htoken : token g rest = .ok (t, behind))
    (h : Scans behind ts left) :
    Scans (g :: rest) (⟨t, g.offset, false, frontOf (g :: rest) behind⟩ :: ts) left :=
  .cons (skipGap_of_not_isGap rest hgap hslash) htoken h

/-! ## Words -/

/-- A stretch of characters that satisfy `p`, up to one that does not. -/
lemma span_locate {p : Char → Bool} {cs : List Char} (hcs : ∀ c ∈ cs, p c = true) (o : Nat)
    {left : List Glyph} (hleft : left.head?.any (fun g => p g.char) = false) :
    (locate o cs ++ left).takeWhile (fun g => p g.char) = locate o cs ∧
      (locate o cs ++ left).dropWhile (fun g => p g.char) = left := by
  induction cs generalizing o with
  | nil =>
    cases left with
    | nil => exact ⟨rfl, rfl⟩
    | cons g rest =>
      have hg : ¬ p g.char = true := by simpa using hleft
      exact ⟨List.takeWhile_cons_of_neg hg, List.dropWhile_cons_of_neg hg⟩
  | cons c rest ih =>
    obtain ⟨htake, hdrop⟩ := ih (fun d hd => hcs d (List.mem_cons_of_mem _ hd)) (o + c.utf8Size)
    have hc := hcs c (List.mem_cons_self ..)
    simp only [locate, List.cons_append, List.takeWhile_cons, List.dropWhile_cons, hc, if_true,
      htake, hdrop, and_self]

/-- A piece that is a word, behind which the word does not go on. -/
theorem exists_scans_word {c : Char} {cs : List Char} (hstart : startsWord c = true)
    (hgap : isGap c = false) (hcs : ∀ d ∈ cs, continuesWord d = true) (o : Nat) (left : List Glyph)
    (hleft : left.head?.any (fun g => continuesWord g.char) = false) :
    ∃ t, Scans (locate o (c :: cs) ++ left) [t] left ∧ t.token = .word (String.ofList (c :: cs)) ∧
      t.offset = o ∧ t.afterBreak = false := by
  have hslash : c ≠ '/' := by
    rintro rfl
    exact absurd hstart (by decide)
  obtain ⟨htake, hdrop⟩ := span_locate hcs (o + c.utf8Size) hleft
  have htoken := @token_of_word ⟨o, c⟩ (locate (o + c.utf8Size) cs ++ left) hstart
  rw [htake, hdrop, chars_locate] at htoken
  exact ⟨_, .cons (skipGap_of_not_isGap _ hgap hslash) htoken (.nil left), rfl, rfl, rfl⟩

/-! ## Signs -/

/-- Whether the character `c` is a sign of its own in front of the character `next`. -/
def standsAlone (c : Char) (next : Option Char) : Bool :=
  !isGap c && !startsWord c && !c.isDigit && !(c ∈ ['\'', '"', '\x60', '.']) &&
    !(c == '/' && (next == some '/' || next == some '*')) && !(c == '?' && next == some '.')

/-- Whether every character is a sign of its own, the last one in front of `next`. -/
def standAlone (next : Option Char) : List Char → Bool
  | [] => true
  | c :: cs => standsAlone c (cs.head?.or next) && standAlone next cs

/-- A piece that is one sign. -/
lemma exists_scans_sign {c : Char} (left : List Glyph)
    (h : standsAlone c (left.head?.map Glyph.char) = true) (o : Nat) :
    ∃ t, Scans (⟨o, c⟩ :: left) [t] left ∧ Reader.IsPunct c t ∧ t.offset = o ∧
      t.afterBreak = false := by
  simp only [standsAlone, Bool.and_eq_true, Bool.not_eq_true', Bool.and_eq_false_imp,
    Bool.or_eq_false_iff, beq_iff_eq, beq_eq_false_iff_ne, decide_eq_false_iff_not, List.mem_cons,
    List.not_mem_nil, or_false, not_or] at h
  obtain ⟨⟨⟨⟨⟨hgap, hword⟩, hdigit⟩, hsingle, hdouble, htick, hdot⟩, hslash⟩, hquestion⟩ := h
  have hskip : skipGap (⟨o, c⟩ :: left) = .ok (false, ⟨o, c⟩ :: left) := by
    by_cases hc : c = '/'
    · obtain ⟨hline, hblock⟩ := hslash hc
      refine skipGap_of_slash hc ?_ ?_
      · exact hline
      · exact hblock
    · exact skipGap_of_not_isGap left hgap hc
  have hsign : signOf c (ahead left) = (.punct c, 0) := by
    unfold signOf
    split
    · exact absurd rfl hdot
    · next hahead =>
      obtain ⟨n, rest, rfl, -⟩ := exists_of_ahead_eq_cons hahead
      exact absurd rfl (hquestion rfl)
    · rfl
  have htoken := @token_of_sign ⟨o, c⟩ left (by simp [hword])
    (by simp [hdigit, hdot]) (by simp [hsingle, hdouble]) htick
  rw [hsign] at htoken
  exact ⟨_, .cons hskip htoken (.nil left), rfl, rfl, rfl⟩

/-- A piece that consists of signs. -/
theorem exists_scans_signs {cs : List Char} (left : List Glyph)
    (h : standAlone (left.head?.map Glyph.char) cs = true) (o : Nat) :
    ∃ ts, Scans (locate o cs ++ left) ts left ∧ List.Forall₂ Reader.IsPunct cs ts ∧
      ∀ t ∈ ts.head?, t.offset = o := by
  induction cs generalizing o with
  | nil => exact ⟨[], .nil left, .nil, nofun⟩
  | cons c cs ih =>
    rw [standAlone, Bool.and_eq_true] at h
    obtain ⟨hc, hcs⟩ := h
    obtain ⟨ts, hscans, hts, -⟩ := ih hcs (o + c.utf8Size)
    have hnext : (locate (o + c.utf8Size) cs ++ left).head?.map Glyph.char =
        cs.head?.or (left.head?.map Glyph.char) := by
      cases cs <;> rfl
    obtain ⟨t, ht, hpunct, hoffset, -⟩ := exists_scans_sign _ (hnext ▸ hc) o
    refine ⟨t :: ts, ht.append hscans, .cons hpunct hts, ?_⟩
    simpa using hoffset

/-! ## Where expressions end -/

namespace Reader

/-- An expression ends here: at a comma, at a closing bracket or with the text. -/
def IsEnd (us : List Lexeme) : Prop :=
  us = [] ∨ ∃ t rest c, us = t :: rest ∧ IsPunct c t ∧ c ∈ [',', ')', ']', '\x7d']

/-- A sign at which an expression ends. -/
lemma IsEnd.of_isPunct {c : Char} {t : Lexeme} (ht : IsPunct c t)
    (hc : c ∈ [',', ')', ']', '\x7d']) (rest : List Lexeme) : IsEnd (t :: rest) :=
  .inr ⟨t, rest, c, rfl, ht, hc⟩

/-- Nothing goes on where an expression ends. -/
lemma IsEnd.ends {us : List Lexeme} (h : IsEnd us) :
    endsLinks us = true ∧ skipCasts us = us ∧ EndsExpression us := by
  rcases h with rfl | ⟨t, rest, c, rfl, ht, hc⟩
  · exact ⟨rfl, by rw [skipCasts.eq_def], fun _ _ => rfl⟩
  · have hplain : ∀ c ∈ [',', ')', ']', '\x7d'], c ∉ operatorSigns ∧ c ∉ ['.', '[', '(', '!'] := by
      decide
    refine ⟨endsLinks_of_isPunct ht (hplain c hc).2,
      skipCasts_of_not_startsCast (not_startsCast_of_isPunct ht),
      fun d hd => ht.atSign_eq_false ?_ rest⟩
    rintro rfl
    exact (hplain c hc).1 hd

/-- An expression in front of its end. -/
lemma reads_expression_of_unary {inner : Substitution → Expr} {ts us : List Lexeme} {e : Expr}
    (h : Reads inner .unary ts (.expr e) us) (hus : IsEnd us) :
    Reads inner .expression ts (.expr e) us := by
  obtain ⟨-, hcasts, hend⟩ := hus.ends
  have hexpression := Reads.expression h (hcasts.symm ▸ hend)
  rwa [hcasts] at hexpression

/-- A literal, a name or an expression in brackets in front of its end. -/
lemma reads_unary_of_primary {inner : Substitution → Expr} {ts us : List Lexeme} {e : Expr}
    (h : Reads inner .primary ts (.expr e) us) (hus : IsEnd us) :
    Reads inner .unary ts (.expr e) us :=
  .plain h (.linksEnd hus.ends.1)

end Reader

/-! ## Bodies that return an expression -/

namespace Reader

/-- A statement that returns an expression. -/
lemma statements_of_result (fin : TextEnd) (inner : Substitution → Expr) {t : Lexeme}
    {ts : List Lexeme} (ht : t.token = .word "return") (hts : ts ≠ [])
    (hends : ∀ c ∈ [';', '\x7d'], atSign c ts = false) :
    statements fin inner (t :: ts) = [.result (expression fin inner ts).tree] := by
  have hexpression : ¬ (ts = [] ∨ atSign ';' ts = true ∨ atSign '\x7d' ts = true) := by
    simp [hts, hends]
  rw [statements]
  simp only [ht, if_neg hexpression]
  rfl

end Reader

/-- The value of a body in a scope, or `undefined`. -/
def evaluateIn (scope : Scope) (body : String) : Except Failure (Option Value) :=
  match bodyStatements body with
  | .error f => .error (.fault f)
  | .ok statements => run scope statements

/-- The value of a body is the one in the scope of its bindings, null standing for `undefined`. -/
lemma evaluate_eq_map (bindings : List (String × Value)) (body : String) :
    evaluate bindings body = (evaluateIn (scopeOf bindings) body).map (·.getD .null) := by
  unfold evaluate evaluateIn
  cases bodyStatements body <;> rfl

/-- **A body that returns an expression** has the value of the expression. -/
theorem evaluateIn_of_result (scope : Scope) {source : String} {ts : List Lexeme}
    (h : lexemes (locate 7 source.toList) = .ok ts) (hts : ts ≠ [])
    (hends : ∀ c ∈ [';', '\x7d'], atSign c ts = false) :
    ∃ fin, evaluateIn scope ("return " ++ source) =
      (Reader.expression fin substitutionExpr ts).tree.eval scope := by
  obtain ⟨t, rest, rfl⟩ := List.exists_cons_of_ne_nil hts
  obtain ⟨left, broken, hsource, hleft⟩ := Scans.of_lexemes h
  obtain ⟨keyword, hkeyword, hword, -, -⟩ := @exists_scans_word 'r' "eturn".toList rfl rfl
    (by decide) 0 (⟨6, ' '⟩ :: locate 7 source.toList) rfl
  have hbody : locate 0 ("return " ++ source).toList =
      locate 0 ('r' :: "eturn".toList) ++ ⟨6, ' '⟩ :: locate 7 source.toList := by
    rw [String.toList_append, locate_append]
    rfl
  have hscans := hkeyword.append (hsource.blank 6)
  rw [← hbody] at hscans
  have hlexemes : lexemes (locate 0 ("return " ++ source).toList) = .ok (keyword :: t :: rest) := by
    rw [hscans.lexemes_eq, lexemes_of_end hleft]
    exact congrArg Except.ok (List.append_nil _)
  refine ⟨.of (Text.byteCount ("return " ++ source).toList) (keyword :: t :: rest), ?_⟩
  unfold evaluateIn bodyStatements
  simp only [hlexemes, Except.map]
  rw [Reader.statements_of_result _ _ hword hts hends]
  rfl

/-- The same if it is known what the tokens are read as. -/
theorem evaluateIn_of_reads (scope : Scope) {source : String} {ts : List Lexeme} {e : Expr}
    (h : lexemes (locate 7 source.toList) = .ok ts)
    (hreads : Reader.Reads substitutionExpr .expression ts (.expr e) []) :
    evaluateIn scope ("return " ++ source) = e.eval scope := by
  obtain ⟨hlength, -⟩ := (Reader.expression_isWhole_iff ⟨0, 0⟩).2 hreads
  have hplain : ∀ c ∈ [';', '\x7d'], c ∉ ['-', '+', '(', '[', '\x7b'] := by decide
  obtain ⟨fin, hbody⟩ := evaluateIn_of_result scope h (List.ne_nil_of_length_pos hlength)
    fun c hc => Reader.atSign_of_reads hreads (by decide) (hplain c hc)
  obtain ⟨_, hwhole⟩ := (Reader.expression_isWhole_iff fin).2 hreads
  rw [hbody, hwhole]
  rfl

/-- All tokens of a text that is scanned to its end. -/
lemma Scans.lexemes_of_nil {cs : List Glyph} {ts : List Lexeme} (h : Scans cs ts []) :
    lexemes cs = .ok ts := by
  rw [h.lexemes_eq, lexemes_of_end (show skipGap [] = .ok (false, []) by rw [skipGap])]
  exact congrArg Except.ok (List.append_nil ts)

section Bindings

variable (bindings : List (String × Value)) {source : String} {ts : List Lexeme}
  (h : Scans (locate 7 source.toList) ts [])

include h

/-- **A body with bindings that returns an expression** has the value of the expression. -/
theorem evaluate_of_result (hts : ts ≠ []) (hends : ∀ c ∈ [';', '\x7d'], atSign c ts = false) :
    ∃ fin, evaluate bindings ("return " ++ source) =
      ((Reader.expression fin substitutionExpr ts).tree.eval (scopeOf bindings)).map
        (·.getD .null) := by
  obtain ⟨fin, hbody⟩ := evaluateIn_of_result (scopeOf bindings) h.lexemes_of_nil hts hends
  exact ⟨fin, by rw [evaluate_eq_map, hbody]⟩

/-- The same if it is known what the tokens are read as. -/
lemma evaluate_of_reads {e : Expr}
    (hreads : Reader.Reads substitutionExpr .expression ts (.expr e) []) :
    evaluate bindings ("return " ++ source) = (e.eval (scopeOf bindings)).map (·.getD .null) := by
  rw [evaluate_eq_map, evaluateIn_of_reads _ h.lexemes_of_nil hreads]

end Bindings

/-- A body that returns what stands in brackets. -/
lemma return_bracketed (e : String) :
    "return (" ++ e ++ ")" = "return " ++ ("(" ++ e ++ ")") := by
  simp only [← String.append_assoc]
  rfl

/-- The characters of a text in brackets. -/
lemma locate_bracketed (o : Nat) (e : String) :
    locate o ("(" ++ e ++ ")").toList = ⟨o, '('⟩ :: locate (o + 1) (e.toList ++ [')']) := by
  rw [String.toList_append, String.toList_append]
  rfl

end CardTable.Script
