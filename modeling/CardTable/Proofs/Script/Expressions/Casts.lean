import CardTable.Proofs.Script.Expressions.InfixOperators

set_option autoImplicit false

/-!
# Casts behind expressions

A cast says nothing about the value: its type is skipped up to the bracket that closes around it.
The brackets in a type are counted, and every `>` counts as a closing one. The `>` of an arrow
closes nothing, but inside brackets it is counted all the same, and the type may then end too early.

## Main definitions

* `CardTable.Script.IsTypeText` — texts on one line with tokens of their own.
* `CardTable.Script.Reader.IsSkipped` — types that are skipped as a whole.
* `CardTable.Script.Reader.IsType` — types whose brackets balance, with arrows outside brackets
  only.

## Main results

* `CardTable.Script.Reader.skipType_eq_iff` — when a type is skipped up to the bracket behind it.
* `CardTable.Script.Reader.IsType.isSkipped` — types with arrows outside brackets are skipped.
* `CardTable.Script.Reader.Reads.cast_iff` — when an expression with a cast is read as a whole.
* `CardTable.Script.evaluate_cast` — an expression with a cast.
-/

namespace CardTable.Script

/-! ## Texts on one line -/

section Line

variable {cs left : List Glyph} {broken : Bool}

/-- A comment on one line holds no line break. -/
lemma broken_of_blockComment? (h : blockComment? cs = some (broken, left))
    (hcs : ∀ g ∈ cs, isBreak g.char = false) : broken = false := by
  fun_induction blockComment? cs generalizing broken with
  | case1 => cases h
  | case2 => exact (Prod.mk.inj (Option.some.inj h)).1.symm
  | case3 g rest _ ih =>
    simp only [Option.map_eq_some_iff, Prod.mk.injEq, Prod.exists] at h
    obtain ⟨later, _, hrest, rfl, rfl⟩ := h
    rw [hcs g (List.mem_cons_self ..), ih hrest fun x hx => hcs x (List.mem_cons_of_mem _ hx)]
    rfl

/-- A gap on one line holds no line break. -/
lemma broken_of_skipGap (h : skipGap cs = .ok (broken, left))
    (hcs : ∀ g ∈ cs, isBreak g.char = false) : broken = false := by
  fun_induction skipGap cs generalizing broken with
  | case1 => exact (Prod.mk.inj (Except.ok.inj h)).1.symm
  | case2 first rest _ ih =>
    obtain ⟨⟨later, _⟩, hrest, ⟨⟩⟩ := map_eq_ok_iff.1 h
    rw [hcs first (List.mem_cons_self ..),
      ih hrest fun x hx => hcs x (List.mem_cons_of_mem _ hx)]
    rfl
  | case3 first _ _ o rest ih =>
    refine ih h fun x hx => hcs x ?_
    exact List.mem_cons_of_mem _ (List.mem_cons_of_mem _ ((List.dropWhile_sublist _).mem hx))
  | case4 => cases h
  | case5 first _ _ o rest inside behind hcomment ih =>
    obtain ⟨⟨later, _⟩, hbehind, ⟨⟩⟩ := map_eq_ok_iff.1 h
    have hrest : ∀ x ∈ rest, isBreak x.char = false := fun x hx =>
      hcs x (List.mem_cons_of_mem _ (List.mem_cons_of_mem _ hx))
    obtain ⟨front, rfl, -⟩ := cutsOff_blockComment? (i := 0) (j := 0) hcomment
    rw [broken_of_blockComment? hcomment hrest,
      ih hbehind fun x hx => hrest x (List.mem_append_right _ hx)]
    rfl
  | case6 => exact (Prod.mk.inj (Except.ok.inj h)).1.symm
  | case7 => exact (Prod.mk.inj (Except.ok.inj h)).1.symm

/-- The tokens of a text on one line stand on it. -/
lemma afterBreak_of_scans {ts : List Lexeme} (h : Scans cs ts left)
    (hcs : ∀ g ∈ cs, isBreak g.char = false) : ∀ t ∈ ts, t.afterBreak = false := by
  induction h with
  | nil => nofun
  | @cons cs rest behind _ g broken t _ hgap htoken _ ih =>
    obtain ⟨gap, rfl⟩ := isSuffix_of_skipGap hgap
    obtain ⟨front, rfl, -⟩ := cutsOff_token (i := 0) (j := 0) htoken
    have hbehind : ∀ x ∈ behind, isBreak x.char = false := fun x hx =>
      hcs x (List.mem_append_right _ (List.mem_cons_of_mem _ (List.mem_append_right _ hx)))
    exact List.forall_mem_cons.2 ⟨broken_of_skipGap hgap hcs, ih hbehind⟩

end Line

namespace Reader

/-! ## Types that are skipped -/

/-- The tokens `ts` are skipped as a type from inside `depth` brackets: outside all brackets, as the
reader counts them, there is neither a comma, a semicolon nor a closing bracket other than an angle,
and no bracket is open behind them. -/
def IsSkipped (depth : Nat) : List Lexeme → Prop
  | [] => depth = 0
  | t :: rest =>
    ¬ endsType (fun _ => false) depth false t ∧ IsSkipped (depthBehind depth t) rest

/-- The brackets that a type may hold. -/
def typeBrackets : List (Char × Char) :=
  [('<', '>'), ('(', ')'), ('[', ']'), ('\x7b', '\x7d')]

/-- The tokens of a type, inside brackets or outside them: the brackets balance, outside them there
is neither a comma nor a semicolon, and arrows stand outside them. -/
inductive IsType : Bool → List Lexeme → Prop
  | nil (inside : Bool) : IsType inside []
  | plain {inside : Bool} {t : Lexeme} {rest : List Lexeme}
      (ht : ∀ pair ∈ typeBrackets, ¬ IsPunct pair.1 t ∧ ¬ IsPunct pair.2 t)
      (houtside : inside = false → ¬ IsPunct ',' t ∧ ¬ IsPunct ';' t)
      (hrest : IsType inside rest) : IsType inside (t :: rest)
  | arrow {t u : Lexeme} {rest : List Lexeme} (ht : IsPunct '=' t) (hu : IsPunct '>' u)
      (hrest : IsType false rest) : IsType false (t :: u :: rest)
  | bracketed {inside : Bool} {t u : Lexeme} {type rest : List Lexeme} {pair : Char × Char}
      (hpair : pair ∈ typeBrackets) (ht : IsPunct pair.1 t) (htype : IsType true type)
      (hu : IsPunct pair.2 u) (hrest : IsType inside rest) :
      IsType inside (t :: (type ++ u :: rest))

section Types

variable {stops : Char → Bool} {depth : Nat} {begun : Bool} {t close : Lexeme}
  {ts ts' rest : List Lexeme}

/-- A token on the line of a type ends it if it does at its beginning. -/
lemma endsType_iff_of_afterBreak (ht : t.afterBreak = false) :
    endsType stops depth begun t ↔ endsType stops depth false t := by
  unfold endsType
  cases t.token with
  | sign s => cases s <;> rfl
  | _ => simp [ht]

/-- **A type on one line is skipped up to the bracket behind it** if it is skipped as a whole. -/
theorem skipType_eq_iff (hline : ∀ t ∈ ts, t.afterBreak = false) (hclose : IsPunct ')' close) :
    skipType (fun _ => false) depth begun (ts ++ [close]) = [close] ↔ IsSkipped depth ts := by
  induction ts generalizing depth begun with
  | nil =>
    have hends : endsType (fun _ => false) depth begun close ↔ depth = 0 := by
      simp [endsType, hclose]
    rw [List.nil_append, IsSkipped, ← hends]
    refine ⟨endsType_of_skipType_self, fun h => skipType_of_ends h⟩
  | cons t rest ih =>
    obtain ⟨ht, hrest⟩ := List.forall_mem_cons.1 hline
    by_cases hends : endsType (fun _ => false) depth begun t
    · rw [List.cons_append, skipType_of_ends hends, IsSkipped]
      have hends' := (endsType_iff_of_afterBreak ht).1 hends
      simp [hends']
    · rw [List.cons_append, skipType_of_not_ends hends, ih hrest, IsSkipped]
      have hends' := mt (endsType_iff_of_afterBreak ht).2 hends
      simp [hends']

/-- A type on one line is skipped up to the token behind it, or to a token in it. -/
lemma skipType_cases (hline : ∀ t ∈ ts, t.afterBreak = false)
    (h : skipType (fun _ => false) depth begun (ts ++ [close]) = t :: rest) :
    IsSkipped depth ts ∨ ∃ front behind, ts = front ++ t :: behind ∧ IsSkipped depth front := by
  induction ts generalizing depth begun with
  | nil =>
    by_cases hends : endsType (fun _ => false) depth begun close
    · exact .inl (eq_zero_of_endsType hends)
    · rw [List.nil_append, skipType_of_not_ends hends, skipType] at h
      cases h
  | cons u ts ih =>
    obtain ⟨hu, hts⟩ := List.forall_mem_cons.1 hline
    by_cases hends : endsType (fun _ => false) depth begun u
    · rw [List.cons_append, skipType_of_ends hends] at h
      obtain ⟨rfl, -⟩ := List.cons.inj h
      exact .inr ⟨[], ts, rfl, eq_zero_of_endsType hends⟩
    · rw [List.cons_append, skipType_of_not_ends hends] at h
      have hends' := mt (endsType_iff_of_afterBreak hu).2 hends
      rcases ih hts h with hskipped | ⟨front, behind, rfl, hskipped⟩
      · exact .inl ⟨hends', hskipped⟩
      · exact .inr ⟨u :: front, behind, rfl, hends', hskipped⟩

/-- Types that are alike are skipped alike. -/
lemma isSkipped_of_alike (h : List.Forall₂ Lexeme.Alike ts ts') :
    IsSkipped depth ts' ↔ IsSkipped depth ts := by
  induction h generalizing depth with
  | nil => rfl
  | cons ht _ ih =>
    rw [IsSkipped, IsSkipped, endsType_of_alike ht, depthBehind_of_alike ht, ih]

/-- An opening bracket goes on with a type. -/
lemma isSkipped_open {pair : Char × Char} (hpair : pair ∈ typeBrackets) (ht : IsPunct pair.1 t) :
    IsSkipped depth (t :: rest) ↔ IsSkipped (depth + 1) rest := by
  simp only [typeBrackets, List.mem_cons, List.not_mem_nil, or_false] at hpair
  rw [IsSkipped, endsType, depthBehind, ht]
  rcases hpair with rfl | rfl | rfl | rfl <;> simp

/-- A closing bracket goes on with a type inside brackets. -/
lemma isSkipped_close {pair : Char × Char} (hpair : pair ∈ typeBrackets) (ht : IsPunct pair.2 t) :
    IsSkipped (depth + 1) (t :: rest) ↔ IsSkipped depth rest := by
  simp only [typeBrackets, List.mem_cons, List.not_mem_nil, or_false] at hpair
  rw [IsSkipped, endsType, depthBehind, ht]
  rcases hpair with rfl | rfl | rfl | rfl <;> simp

/-- The `>` of an arrow outside brackets closes nothing. -/
lemma isSkipped_arrow {u : Lexeme} (ht : IsPunct '=' t) (hu : IsPunct '>' u) :
    IsSkipped 0 (t :: u :: rest) ↔ IsSkipped 0 rest := by
  simp [IsSkipped, endsType, depthBehind, show t.token = _ from ht, show u.token = _ from hu]

/-- A token that is no bracket goes on with a type, unless it is a comma or a semicolon outside. -/
lemma isSkipped_plain (ht : ∀ pair ∈ typeBrackets, ¬ IsPunct pair.1 t ∧ ¬ IsPunct pair.2 t)
    (houtside : depth = 0 → ¬ IsPunct ',' t ∧ ¬ IsPunct ';' t) :
    IsSkipped depth (t :: rest) ↔ IsSkipped depth rest := by
  rw [IsSkipped, endsType, depthBehind]
  simp only [typeBrackets, List.forall_mem_cons, IsPunct] at ht houtside
  cases htoken : t.token with
  | sign s =>
    cases s with
    | punct c => simp_all
    | _ => simp
  | _ => simp

/-- A type is skipped inside the brackets that it stands in. -/
lemma IsType.isSkipped_append {inside : Bool} (h : IsType inside ts)
    (hdepth : inside = true ↔ 0 < depth) (rest : List Lexeme) :
    IsSkipped depth (ts ++ rest) ↔ IsSkipped depth rest := by
  induction h generalizing depth rest with
  | nil => rfl
  | plain ht houtside _ ih =>
    rw [List.cons_append, isSkipped_plain ht fun h => houtside ?_, ih hdepth]
    simpa [h] using hdepth
  | arrow ht hu _ ih =>
    obtain rfl : depth = 0 := by simpa using hdepth
    rw [List.cons_append, List.cons_append, isSkipped_arrow ht hu, ih hdepth]
  | bracketed hpair ht _ hu _ ihtype ihrest =>
    rw [List.cons_append, List.append_assoc, List.cons_append, isSkipped_open hpair ht,
      ihtype (by simp), isSkipped_close hpair hu, ihrest hdepth]

/-- **Types with arrows outside brackets** are skipped as a whole. -/
theorem IsType.isSkipped (h : IsType false ts) : IsSkipped 0 ts := by
  have houtside : false = true ↔ 0 < 0 := by simp
  have hskipped := h.isSkipped_append houtside []
  rw [List.append_nil] at hskipped
  exact hskipped.2 rfl

/-! ## Casts in front of closing brackets -/

/-- A word that begins a cast goes on with a type. -/
lemma skipType_of_startsCast (ht : startsCast t) :
    skipType stops depth begun (t :: rest) = skipType stops depth true rest := by
  obtain ⟨w, hw, hcast⟩ := ht
  have hends : ¬ endsType stops depth begun t := by
    rw [endsType, hw]
    rintro ⟨-, -, -, hstatement⟩
    simp only [isCast, Bool.or_eq_true, beq_iff_eq] at hcast
    rcases hcast with rfl | rfl <;> exact absurd hstatement (by decide)
  rw [skipType_of_not_ends hends, depthBehind_of_word hw]

/-- Behind casts that end in front of a token, a cast is skipped with its type: as one more cast, or
as a part of the type in front of it. -/
lemma exists_skipCasts_append (h : skipCasts (ts ++ [close]) = [close]) (ht : startsCast t) :
    ∃ begun, ∀ rest, skipCasts (ts ++ t :: rest) = skipType (fun _ => false) 0 begun rest := by
  cases ts with
  | nil => exact ⟨false, fun _ => skipCasts_of_startsCast ht⟩
  | cons u ts =>
    have hcast : startsCast u := by
      by_contra hcast
      rw [List.cons_append, skipCasts_of_not_startsCast hcast] at h
      simp at h
    rw [List.cons_append, skipCasts_of_startsCast hcast] at h
    obtain ⟨depth, begun, hself, hmore⟩ := exists_skipType_append h
    obtain rfl := eq_zero_of_endsType (endsType_of_skipType_self hself)
    refine ⟨true, fun rest => ?_⟩
    rw [List.cons_append, skipCasts_of_startsCast hcast, hmore, skipType_of_startsCast ht]

variable {inner : Substitution → Expr} {e : Expr}

/-- An expression is read in front of its casts. -/
lemma Reads.exists_unary {us : List Lexeme} {node : Node}
    (h : Reads inner .expression ts node us) :
    ∃ e behind, node = .expr e ∧ Reads inner .unary ts (.expr e) behind ∧ skipCasts behind = us := by
  cases h with
  | expression hunary _ => exact ⟨_, _, rfl, hunary, rfl⟩

/-- In front of a cast the same expression is read, and then the type is skipped. -/
lemma Reads.exists_cast (h : Reads inner .expression (ts ++ [close]) (.expr e) [close])
    (hclose : IsPunct ')' close) (ht : startsCast t) (rest : List Lexeme) :
    ∃ us begun, Reads inner .unary (ts ++ t :: rest) (.expr e) us ∧
      skipCasts us = skipType (fun _ => false) 0 begun rest := by
  obtain ⟨_, us, ⟨⟩, hunary, hus⟩ := h.exists_unary
  obtain ⟨front, rfl⟩ : [close] <:+ us := hus ▸ isSuffix_skipCasts us
  obtain ⟨w, hw, -⟩ := id ht
  have hstub : EndsPart (t :: rest) .unary := ⟨endsLinks_of_word hw, atSign_eq_false (by simp [hw])⟩
  obtain ⟨rs, hrs, hunary⟩ :=
    hunary.replaceEnd (fun _ _ => rfl) hclose (by decide) rfl fun _ => hstub
  obtain rfl := List.append_cancel_right hrs
  obtain ⟨begun, hbegun⟩ := exists_skipCasts_append hus ht
  exact ⟨_, begun, hunary, hbegun rest⟩

/-- An expression with a cast is read up to the end of the type. -/
lemma Reads.cast_cases (h : Reads inner .expression (ts ++ [close]) (.expr e) [close])
    (hclose : IsPunct ')' close) (ht : startsCast t) {node : Node} {us : List Lexeme}
    (h' : Reads inner .expression (ts ++ t :: rest) node us) :
    node = .expr e ∧ ∃ begun, us = skipType (fun _ => false) 0 begun rest := by
  obtain ⟨_, begun, hunary, hcasts⟩ := h.exists_cast hclose ht rest
  obtain ⟨_, _, rfl, hunary', rfl⟩ := h'.exists_unary
  obtain ⟨heq, rfl⟩ := hunary.unique hunary'
  exact ⟨heq.symm, begun, hcasts⟩

/-- **An expression with a cast** is read up to the bracket behind the type if the type is skipped
as a whole.

**Proof sketch.** Behind the operand both readings skip the type. They go on at the bracket just if
no token of the type ends it (`skipType_eq_iff`), and an expression that ends there has the tree of
the operand. -/
theorem Reads.cast_iff (h : Reads inner .expression (ts ++ [close]) (.expr e) [close])
    (hclose : IsPunct ')' close) (ht : startsCast t) {close' : Lexeme}
    (hclose' : IsPunct ')' close')
    (hline : ∀ u ∈ rest, u.afterBreak = false) (node : Node) :
    Reads inner .expression (ts ++ t :: (rest ++ [close'])) node [close'] ↔
      node = .expr e ∧ IsSkipped 0 rest := by
  constructor
  · intro h'
    obtain ⟨hnode, begun, hskip⟩ := h.cast_cases hclose ht h'
    exact ⟨hnode, (skipType_eq_iff hline hclose').1 hskip.symm⟩
  · rintro ⟨rfl, hskipped⟩
    obtain ⟨us, begun, hunary, hcasts⟩ := h.exists_cast hclose ht (rest ++ [close'])
    rw [(skipType_eq_iff hline hclose').2 hskipped] at hcasts
    have hend : EndsExpression (skipCasts us) := by
      rw [hcasts]
      exact (IsEnd.of_isPunct hclose' (by decide) []).ends.2.2
    have hexpression := Reads.expression hunary hend
    rwa [hcasts] at hexpression

/-- Behind a round bracket an expression is read up to a bracket that closes it. -/
lemma Reads.exists_bracketed {node : Node} {us : List Lexeme} (ht : IsPunct '(' t)
    (h : Reads inner .expression (t :: rest) node us) :
    ∃ node' close us', Reads inner .expression rest node' (close :: us') ∧ IsPunct ')' close := by
  obtain ⟨_, _, -, hunary, -⟩ := h.exists_unary
  cases hunary with
  | signed negative hsign =>
    rw [IsPunct, ht] at hsign
    cases negative <;> cases hsign
  | plain hprimary _ =>
    cases hprimary with
    | bracketed _ hexpression hclose => exact ⟨_, _, _, hexpression, hclose⟩
    | atom hatom =>
      rw [ht] at hatom
      cases hatom
    | name hname | object hname _ | array hname _ => simp [IsPunct, hname] at ht

end Types

end Reader

open Reader

/-! ## Expressions with casts -/

/-- The text of an expression with a cast. -/
def castText (e w type : String) : String :=
  e ++ " " ++ w ++ " " ++ type

/-- The text `type` stands on one line, and its tokens are `ts`: with a closing bracket behind it,
they are the ones in front of that bracket. -/
def IsTypeText (type : String) (ts : List Lexeme) : Prop :=
  (∀ c ∈ type.toList, isBreak c = false) ∧
    ∃ close, Scans (locate 0 (type.toList ++ [')'])) (ts ++ [close]) [] ∧ IsPunct ')' close

section Texts

variable {bindings : List (String × Value)} {e w type : String} {v : Option Value}
  {ts : List Lexeme}

/-- A blank in front of a token is skipped. -/
lemma Scans.blank_append {cs left : List Glyph} {ts : List Lexeme} {t : Lexeme}
    (h : Scans cs (ts ++ [t]) left) (o : Nat) : Scans (⟨o, ' '⟩ :: cs) (ts ++ [t]) left := by
  cases ts <;> exact h.blank o

/-- The words that begin a cast. -/
lemma exists_scans_cast (hw : isCast w = true) (o : Nat) (left : List Glyph)
    (hleft : left.head?.any (fun g => continuesWord g.char) = false) :
    ∃ t, Scans (locate o w.toList ++ left) [t] left ∧ startsCast t := by
  simp only [isCast, Bool.or_eq_true, beq_iff_eq] at hw
  rcases hw with rfl | rfl
  · obtain ⟨t, hscans, ht, -⟩ :=
      @exists_scans_word 'a' ['s'] (by decide) (by decide) (by decide) o left hleft
    exact ⟨t, hscans, "as", ht, rfl⟩
  · obtain ⟨t, hscans, ht, -⟩ :=
      @exists_scans_word 's' "atisfies".toList (by decide) (by decide) (by decide) o left hleft
    exact ⟨t, hscans, "satisfies", ht, rfl⟩

/-- The tokens of a type in front of a closing bracket are the same wherever the type stands. -/
lemma IsTypeText.exists_scans (h : IsTypeText type ts) (o : Nat) :
    ∃ ts' close, Scans (locate o (type.toList ++ [')'])) (ts' ++ [close]) [] ∧
      List.Forall₂ Lexeme.Alike ts ts' ∧ IsPunct ')' close ∧ ∀ t ∈ ts', t.afterBreak = false := by
  obtain ⟨hline, close, hscans, hclose⟩ := h
  obtain ⟨close', hlast, hclose', -⟩ :=
    exists_scans_sign (c := ')') [] rfl (o + Text.byteCount type.toList)
  obtain ⟨ts', broken, htwin, hscans'⟩ := hscans.place hclose (by decide) o rfl hlast
  rw [show [(⟨o + Text.byteCount type.toList, ')'⟩ : Glyph)] =
    locate (o + Text.byteCount type.toList) [')'] from rfl, ← locate_append] at hscans'
  have hbreaks : ∀ g ∈ locate o (type.toList ++ [')']), isBreak g.char = false := by
    intro g hg
    have hchar := List.mem_map_of_mem (f := Glyph.char) hg
    rw [← chars, chars_locate] at hchar
    rcases List.mem_append.1 hchar with hchar | hchar
    · exact hline _ hchar
    · rw [List.mem_singleton.1 hchar]
      rfl
  have hafter := afterBreak_of_scans hscans' hbreaks
  exact ⟨ts', _, hscans', htwin.imp fun _ _ => Lexeme.Twin.alike, hclose',
    fun t ht => hafter t (List.mem_append_left _ ht)⟩

/-- An expression with a cast in front of a closing bracket: the tokens of the expression, which are
read as one in front of another bracket, then the cast and the tokens of the type. -/
lemma exists_scans_castText {tree : Expr} (he : Fills ')' .expression e.toList (.expr tree))
    (hw : isCast w = true) (htype : IsTypeText type ts) (o : Nat) :
    ∃ front t us close close' tree', Scans (locate o ((castText e w type).toList ++ [')']))
        (front ++ t :: (us ++ [close'])) [] ∧
      IsPunct ')' close ∧ tree.Refines tree' ∧
      Reads substitutionExpr .expression (front ++ [close]) (.expr tree') [close] ∧
      startsCast t ∧ List.Forall₂ Lexeme.Alike ts us ∧ (∀ u ∈ us, u.afterBreak = false) ∧
      IsPunct ')' close' := by
  obtain ⟨front, close, hfront, hclose, hreads⟩ := he
  let p := o + Text.byteCount e.toList
  let q := p + 1 + Text.byteCount w.toList
  obtain ⟨us, close', htokens, halike, hclose', hline⟩ := htype.exists_scans (q + 1)
  obtain ⟨t, hcast, ht⟩ :=
    exists_scans_cast hw (p + 1) (⟨q, ' '⟩ :: locate (q + 1) (type.toList ++ [')'])) rfl
  have hbehind := (hcast.append (htokens.blank_append q)).blank p
  have hblank : isApart ' ' = true := by decide
  obtain ⟨front', broken, htwin, hscans⟩ := hfront.place hclose (by decide) o
    (by rw [ahead_cons, if_pos hblank]) hbehind
  have htext : locate o ((castText e w type).toList ++ [')']) =
      locate o e.toList ++ (⟨p, ' '⟩ :: (locate (p + 1) w.toList ++
        ⟨q, ' '⟩ :: locate (q + 1) (type.toList ++ [')']))) := by
    have hchars : (castText e w type).toList ++ [')'] =
        e.toList ++ ' ' :: (w.toList ++ ' ' :: (type.toList ++ [')'])) := by
      simp [castText]
    rw [hchars, locate_append_single o _ rfl, locate_append_single _ _ rfl]
  obtain ⟨node, hreads', hrefines, -⟩ :=
    hreads.exists_same (htwin.imp fun _ _ => Lexeme.Twin.alike) hclose
  obtain ⟨tree', rfl, hrefines⟩ := hrefines.exists_expr
  rw [htext]
  exact ⟨front', { t with afterBreak := broken }, us, close, close', tree', hscans, hclose,
    hrefines, hreads', ht, halike, hline, hclose'⟩

/-- **An expression with a cast** is an operand if the type is skipped as a whole, and has the value
of the expression. -/
theorem IsOperand.cast_iff (he : IsOperand bindings e v) (hw : isCast w = true)
    (htype : IsTypeText type ts) (v' : Option Value) :
    IsOperand bindings (castText e w type) v' ↔ v' = v ∧ IsSkipped 0 ts := by
  obtain ⟨tree, hfills, heval⟩ := he.exists_fills
  obtain ⟨front, t, us, close, close', tree', hscans, hclose, hrefines, hreads, ht, halike, hline,
    hclose'⟩ := exists_scans_castText hfills hw htype 0
  have hiff := hreads.cast_iff hclose ht hclose' hline
  constructor
  · intro h
    obtain ⟨tree'', ⟨ts', close'', hscans', hclose'', hreads'⟩, heval'⟩ := h.exists_fills
    have hsame := Except.ok.inj (hscans.lexemes_of_nil.symm.trans hscans'.lexemes_of_nil)
    have hlast : front ++ t :: (us ++ [close']) = (front ++ t :: us) ++ [close'] := by simp
    rw [hlast] at hsame
    obtain ⟨rfl, hclose⟩ := List.append_inj' hsame rfl
    obtain rfl := List.singleton_injective hclose
    rw [← hlast] at hreads'
    obtain ⟨⟨⟩, hskipped⟩ := (hiff _).1 hreads'
    have hvalue := (hrefines _ _ heval).symm.trans heval'
    exact ⟨(Except.ok.inj hvalue).symm, (isSkipped_of_alike halike).1 hskipped⟩
  · rintro ⟨rfl, hskipped⟩
    have hwhole := (expression_isWhole_iff ⟨0, 0⟩).2
      ((hiff (.expr tree')).2 ⟨rfl, (isSkipped_of_alike halike).2 hskipped⟩)
    have hlast : front ++ t :: (us ++ [close']) = (front ++ t :: us) ++ [close'] := by simp
    rw [hlast] at hscans hwhole
    exact ⟨_, close', ⟨0, 0⟩, tree', hscans, hclose', hwhole, hrefines _ _ heval⟩

/-- An expression with a cast in brackets has a value only if the type is skipped as a whole, or up
to a closing bracket in it. -/
lemma IsOperand.cast_cases (he : IsOperand bindings e v) (hw : isCast w = true)
    (htype : IsTypeText type ts) {x : Value}
    (h : evaluate bindings ("return (" ++ castText e w type ++ ")") = .ok x) :
    IsSkipped 0 ts ∨
      ∃ front close behind, ts = front ++ close :: behind ∧ IsPunct ')' close ∧ IsSkipped 0 front := by
  obtain ⟨tree, hfills, -⟩ := he.exists_fills
  obtain ⟨front, t, us, close, close', tree', hscans, hclose, -, hreads, ht, halike, hline, -⟩ :=
    exists_scans_castText hfills hw htype 8
  obtain ⟨open', hopen, hpunct, -⟩ := exists_scans_sign (c := '(')
    (locate 8 ((castText e w type).toList ++ [')'])) rfl 7
  have htokens := hopen.append hscans
  rw [← locate_bracketed 7] at htokens
  obtain ⟨fin, hbody⟩ := evaluate_of_result bindings htokens (List.cons_ne_nil _ _) fun c hc =>
    hpunct.atSign_eq_false (by rintro rfl; exact absurd hc (by decide)) _
  rw [return_bracketed, hbody, map_eq_ok_iff] at h
  obtain ⟨_, heval, -⟩ := h
  obtain ⟨_, hbracketed⟩ := exists_reads_of_eval _ _ heval
  obtain ⟨node, u, rest, hreads', hu⟩ := hbracketed.exists_bracketed hpunct
  obtain ⟨-, begun, hskip⟩ := hreads.cast_cases hclose ht hreads'
  -- the tokens of the text itself are like those in brackets
  have hback : List.Forall₂ Lexeme.Alike us ts := (halike.imp fun _ _ => .symm).flip
  rcases skipType_cases hline hskip.symm with hskipped | ⟨inside, behind, rfl, hskipped⟩
  · exact .inl ((isSkipped_of_alike halike).1 hskipped)
  · obtain ⟨inside', _, rfl, hinside, hrest⟩ := exists_append_of_forall₂ hback
    rcases hrest with - | ⟨hlike, -⟩
    exact .inr ⟨inside', _, _, rfl, (hlike.isPunct_iff _).2 hu, (isSkipped_of_alike hinside).2 hskipped⟩

end Texts

/-- **An expression with a cast** is an operand with the value of the expression just if the type is
skipped as a whole. Then both have the same value in brackets, as they have if the brackets of the
type balance and its arrows stand outside them. Otherwise there is no value in brackets, unless the
type is skipped up to a closing bracket in it.

**Proof sketch.** The tokens of the text are those of the expression with those of the type behind
them, so that `IsOperand.cast_iff` says when it is an operand. A type whose brackets balance is
skipped (`IsType.isSkipped`), and one that is not skipped as a whole leaves a token in front of the
closing bracket, unless it has such a bracket itself. -/
theorem evaluate_cast {bindings : List (String × Value)} {e w type : String} {v : Option Value}
    {ts : List Lexeme} (he : IsOperand bindings e v) (hw : isCast w = true)
    (htype : IsTypeText type ts) :
    (∀ v', IsOperand bindings (castText e w type) v' ↔ v' = v ∧ IsSkipped 0 ts) ∧
    (IsSkipped 0 ts → evaluate bindings ("return (" ++ castText e w type ++ ")") =
      evaluate bindings ("return (" ++ e ++ ")")) ∧
    (IsType false ts → evaluate bindings ("return (" ++ castText e w type ++ ")") =
      evaluate bindings ("return (" ++ e ++ ")")) ∧
    (∀ x, evaluate bindings ("return (" ++ castText e w type ++ ")") = .ok x → IsSkipped 0 ts ∨
      ∃ front close behind, ts = front ++ close :: behind ∧ IsPunct ')' close ∧
        IsSkipped 0 front) := by
  have hiff := he.cast_iff hw htype
  have hskipped : IsSkipped 0 ts → evaluate bindings ("return (" ++ castText e w type ++ ")") =
      evaluate bindings ("return (" ++ e ++ ")") := fun h =>
    ((hiff v).2 ⟨rfl, h⟩).evaluate_bracketed.trans he.evaluate_bracketed.symm
  exact ⟨hiff, hskipped, fun h => hskipped h.isSkipped, fun x => he.cast_cases hw htype⟩

/-- The arrow of a function inside an object type ends the type in front of the closing brace: with
such a cast a literal in brackets has no value. -/
theorem evaluate_cast_arrow : IsOperand [] "true" (some (.bool true)) ∧
    (∃ ts, IsTypeText "\x7b f: () => void \x7d" ts) ∧
    ∀ x, evaluate [] "return (true as \x7b f: () => void \x7d)" ≠ .ok x := by
  have htrue : IsOperand [] "true" (some (.bool true)) :=
    isOperand_of_atom (.first rfl (by decide) rfl (.first rfl (by decide) rfl (.nil [])))
      rfl rfl rfl
  have htype : ∃ ts, IsTypeText "\x7b f: () => void \x7d" ts ∧ ts.map Lexeme.token =
      [.sign (.punct '\x7b'), .word "f", .sign (.punct ':'), .sign (.punct '('),
        .sign (.punct ')'), .sign (.punct '='), .sign (.punct '>'), .word "void",
        .sign (.punct '\x7d')] := by
    exact ⟨[_, _, _, _, _, _, _, _, _], ⟨by decide, _,
      .first rfl (by decide) rfl (Scans.blank (.first rfl (by decide) rfl
        (.first rfl (by decide) rfl (Scans.blank (.first rfl (by decide) rfl
          (.first rfl (by decide) rfl (Scans.blank (.first rfl (by decide) rfl
            (.first rfl (by decide) rfl (Scans.blank (.first rfl (by decide) rfl (Scans.blank
              (.first rfl (by decide) rfl (.first rfl (by decide) rfl (.nil []))) 15)) 10))) 7)))
              4))) 1), rfl⟩, rfl⟩
  obtain ⟨ts, htype, htokens⟩ := htype
  have hbody : "return (" ++ castText "true" "as" "\x7b f: () => void \x7d" ++ ")" =
      "return (true as \x7b f: () => void \x7d)" := by
    decide
  obtain ⟨-, -, -, hcases⟩ := evaluate_cast htrue (w := "as") rfl htype
  rw [hbody] at hcases
  simp only [List.map_eq_cons_iff, List.map_eq_nil_iff] at htokens
  obtain ⟨t₁, _, rfl, h₁, t₂, _, rfl, h₂, t₃, _, rfl, h₃, t₄, _, rfl, h₄, t₅, _, rfl, h₅, t₆, _,
    rfl, h₆, t₇, _, rfl, h₇, t₈, _, rfl, h₈, t₉, _, rfl, h₉, rfl⟩ := htokens
  refine ⟨htrue, ⟨_, htype⟩, fun x hx => ?_⟩
  rcases hcases x hx with hskipped | ⟨front, close, behind, hfront, hclose, hskipped⟩
  · simp [IsSkipped, endsType, depthBehind, h₁, h₂, h₃, h₄, h₅, h₆, h₇, h₈, h₉] at hskipped
  · -- in front of the only closing bracket two brackets are open
    rcases front with - | ⟨_, - | ⟨_, - | ⟨_, - | ⟨_, - | ⟨_, front⟩⟩⟩⟩⟩
    all_goals simp only [List.nil_append, List.cons_append, List.cons.injEq] at hfront
    · simp [IsPunct, ← hfront.1, h₁] at hclose
    · simp [IsPunct, ← hfront.2.1, h₂] at hclose
    · simp [IsPunct, ← hfront.2.2.1, h₃] at hclose
    · simp [IsPunct, ← hfront.2.2.2.1, h₄] at hclose
    · obtain ⟨rfl, rfl, rfl, rfl, -⟩ := hfront
      simp [IsSkipped, endsType, depthBehind, h₁, h₂, h₃, h₄] at hskipped
    · have hmem : close ∈ [t₆, t₇, t₈, t₉] := by simp [hfront.2.2.2.2.2]
      simp only [List.mem_cons, List.not_mem_nil, or_false] at hmem
      rcases hmem with rfl | rfl | rfl | rfl <;> simp_all

end CardTable.Script
