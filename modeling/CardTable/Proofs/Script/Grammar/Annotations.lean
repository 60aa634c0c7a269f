import CardTable.Proofs.Script.Grammar.Refinement

set_option autoImplicit false

/-!
# Token lists without annotations

The annotation between the name of a declaration and its equals sign says nothing about the value.
A token list is compared with the same one without some annotations. Types are skipped in both up to
the same token, whether or not they hold an annotation.

## Main definitions

* `CardTable.Script.Reader.IsDeclaredType` — brackets balance, and nothing outside them ends a type.
* `CardTable.Script.Reader.Erases` — a token list and the same one without some annotations.

## Main results

* `CardTable.Script.Reader.skipType_erases`, `CardTable.Script.Reader.skipCasts_erases` — types and
  casts are skipped up to the same token.
-/

namespace CardTable.Script

namespace Reader

/-! ## Annotations -/

/-- The tokens `ts` go on with a type from inside `depth` brackets: its brackets balance, and
outside them there is neither a comma, a semicolon or an equals sign nor a word on a new line that
begins a statement. -/
def IsDeclaredType (depth : Nat) : List Lexeme → Prop
  | [] => depth = 0
  | t :: rest =>
    match t.token with
    | .sign (.punct c) =>
      if c ∈ ['<', '(', '[', '\x7b'] then IsDeclaredType (depth + 1) rest
      else if c ∈ ['>', ')', ']', '\x7d'] then 0 < depth ∧ IsDeclaredType (depth - 1) rest
      else (depth = 0 → c ∉ [',', ';', '=']) ∧ IsDeclaredType depth rest
    | .word w => ¬ (depth = 0 ∧ t.afterBreak ∧ startsStatement w) ∧ IsDeclaredType depth rest
    | _ => IsDeclaredType depth rest

/-- How far the erasure of an annotation has come: outside, or behind the keyword of the
declaration. -/
inductive Stage where
  | outside | declaring

/-- The second token list is the first one without some annotations, as far as `us` and `us'`. -/
inductive Erases (us us' : List Lexeme) : Stage → List Lexeme → List Lexeme → Prop
  | behind : Erases us us' .outside us us'
  | keep {t t' : Lexeme} {ts ts' : List Lexeme} (ht : t.Alike t')
      (h : Erases us us' .outside ts ts') : Erases us us' .outside (t :: ts) (t' :: ts')
  | keyword {t t' : Lexeme} {ts ts' : List Lexeme} {w : String} (ht : t.Alike t')
      (hword : t.token = .word w) (hdeclarator : isDeclarator w = true)
      (h : Erases us us' .declaring ts ts') : Erases us us' .outside (t :: ts) (t' :: ts')
  | typed {name name' colon equals equals' : Lexeme} {type ts ts' : List Lexeme}
      {w : String} (hname : name.token = .word w) (hname' : name'.token = .word w)
      (hbreak : name'.afterBreak = false) (hcolon : IsPunct ':' colon)
      (htype : IsDeclaredType 0 type) (hequals : IsPunct '=' equals)
      (hequals' : IsPunct '=' equals') (h : Erases us us' .outside ts ts') :
      Erases us us' .declaring (name :: colon :: (type ++ equals :: ts))
        (name' :: equals' :: ts')

/-- Two lists end where the same closing bracket stands, or where nothing is left. -/
def EndAlike (us us' : List Lexeme) : Prop :=
  us = [] ∧ us' = [] ∨ atSign ')' us = true ∧ atSign ')' us' = true

/-- No statement and no expression goes on behind a word with a colon. -/
def IsStuck (ts : List Lexeme) : Prop :=
  ∃ name colon rest w, ts = name :: colon :: rest ∧ name.token = .word w ∧ IsPunct ':' colon

/-! ## Skipping types token by token -/

/-- Whether a type ends in front of `t`. -/
def endsType (stops : Char → Bool) (depth : Nat) (begun : Bool) (t : Lexeme) : Prop :=
  match t.token with
  | .sign (.punct c) => depth = 0 ∧ (stops c ∨ c ∈ [',', ';', '\x7d', ']', ')'])
  | .word w => depth = 0 ∧ begun ∧ t.afterBreak ∧ startsStatement w
  | _ => False

/-- How many brackets are open behind `t`. -/
def depthBehind (depth : Nat) (t : Lexeme) : Nat :=
  match t.token with
  | .sign (.punct c) =>
    if c ∈ ['<', '(', '[', '\x7b'] then depth + 1
    else if c ∈ ['>', ')', ']', '\x7d'] then depth - 1
    else depth
  | _ => depth

section Skip

variable {stops : Char → Bool} {depth : Nat} {begun : Bool} {t : Lexeme} {rest : List Lexeme}

/-- A type ends outside all brackets. -/
lemma eq_zero_of_endsType (h : endsType stops depth begun t) : depth = 0 := by
  unfold endsType at h
  split at h
  · exact h.1
  · exact h.1
  · exact h.elim

/-- A type that ends at once. -/
lemma skipType_of_ends (h : endsType stops depth begun t) :
    skipType stops depth begun (t :: rest) = t :: rest := by
  unfold endsType at h
  rw [skipType]
  generalize t.token = token at h ⊢
  split at h
  · exact if_pos h
  · exact if_pos h
  · exact h.elim

/-- A type that goes on behind its first token. -/
lemma skipType_of_not_ends (h : ¬ endsType stops depth begun t) :
    skipType stops depth begun (t :: rest) = skipType stops (depthBehind depth t) true rest := by
  unfold endsType at h
  rw [skipType, depthBehind]
  cases ht : t.token with
  | sign s =>
    cases s with
    | punct c =>
      rw [ht] at h
      simp only [if_neg h]
      split
      · rfl
      · split <;> rfl
    | _ => rfl
  | word w =>
    rw [ht] at h
    simp only [if_neg h]
  | _ => rfl

/-- A type ends in front of the same tokens. -/
lemma endsType_of_alike {t' : Lexeme} (h : t.Alike t') :
    endsType stops depth begun t' ↔ endsType stops depth begun t := by
  unfold endsType
  cases ht : t.token with
  | word w => rw [h.word ht, h.afterBreak w ht]
  | sign s =>
    rw [h.sign ht]
    cases s <;> rfl
  | template head parts =>
    obtain ⟨i, j, htwin⟩ := h.token
    rw [ht] at htwin
    generalize t'.token = u at htwin
    cases htwin with
    | same => rfl
    | template => rfl
  | _ => rw [h.token_eq (by simp [ht]), ht]

/-- The same brackets are open behind tokens that are alike. -/
lemma depthBehind_of_alike {t' : Lexeme} (h : t.Alike t') :
    depthBehind depth t' = depthBehind depth t := by
  unfold depthBehind
  cases ht : t.token with
  | template head parts =>
    obtain ⟨i, j, htwin⟩ := h.token
    rw [ht] at htwin
    generalize t'.token = u at htwin
    cases htwin with
    | same => rfl
    | template => rfl
  | _ => rw [h.token_eq (by simp [ht]), ht]

/-- A token of an annotation does not end a type, and the annotation goes on behind it. -/
lemma IsDeclaredType.step (begun : Bool) (hstops : ∀ c, stops c = true → c = '=') {inside : Nat}
    (h : IsDeclaredType inside (t :: rest)) (depth : Nat) :
    ¬ endsType stops (depth + inside) begun t ∧ ∃ inside', IsDeclaredType inside' rest ∧
      depthBehind (depth + inside) t = depth + inside' := by
  unfold IsDeclaredType at h
  unfold endsType depthBehind
  cases ht : t.token with
  | sign s =>
    rw [ht] at h
    cases s with
    | punct c =>
      dsimp only at h ⊢
      by_cases hopen : c ∈ ['<', '(', '[', '\x7b']
      · rw [if_pos hopen] at h ⊢
        refine ⟨?_, inside + 1, h, rfl⟩
        rintro ⟨-, hstop | hclose⟩
        · rw [hstops c hstop] at hopen
          exact absurd hopen (by decide)
        · simp only [List.mem_cons, List.not_mem_nil, or_false] at hopen hclose
          rcases hopen with rfl | rfl | rfl | rfl <;> simp at hclose
      rw [if_neg hopen] at h ⊢
      by_cases hclose : c ∈ ['>', ')', ']', '\x7d']
      · rw [if_pos hclose] at h ⊢
        exact ⟨fun hends => by omega, inside - 1, h.2, by omega⟩
      · rw [if_neg hclose] at h ⊢
        refine ⟨?_, inside, h.2, rfl⟩
        rintro ⟨houtside, hstop | hdelimiter⟩
        · exact h.1 (by omega) (by simp [hstops c hstop])
        · have hnot := h.1 (by omega)
          simp only [List.mem_cons, List.not_mem_nil, or_false] at hclose hdelimiter hnot
          rcases hdelimiter with rfl | rfl | rfl | rfl | rfl <;> simp at hclose hnot
    | _ => exact ⟨id, inside, h, rfl⟩
  | word w =>
    rw [ht] at h
    exact ⟨fun hends => h.1 ⟨by omega, hends.2.2⟩, inside, h.2, rfl⟩
  | _ =>
    rw [ht] at h
    exact ⟨id, inside, h, rfl⟩

/-- An annotation is skipped to its end. -/
lemma skipType_append (hstops : ∀ c, stops c = true → c = '=') {type : List Lexeme}
    {inside : Nat} (h : IsDeclaredType inside type) (depth : Nat) (ts : List Lexeme) :
    skipType stops (depth + inside) true (type ++ ts) = skipType stops depth true ts := by
  induction type generalizing inside with
  | nil =>
    obtain rfl : inside = 0 := h
    rfl
  | cons t rest ih =>
    obtain ⟨hends, inside', hrest, hbehind⟩ := h.step true hstops depth
    rw [List.cons_append, skipType_of_not_ends hends, hbehind, ih hrest]

/-- The same sign is alike wherever it stands. -/
lemma alike_of_isPunct {c : Char} {t' : Lexeme} (ht : IsPunct c t) (ht' : IsPunct c t') :
    t.Alike t' := by
  refine ⟨⟨0, 0, ?_⟩, fun w hw => absurd (ht.symm.trans hw) nofun⟩
  rw [ht, ht']
  exact .same _ nofun

/-- A word goes on with a type unless it ends it. -/
lemma depthBehind_of_word {w : String} (ht : t.token = .word w) :
    depthBehind depth t = depth := by
  rw [depthBehind, ht]

/-- A colon goes on with a type. -/
lemma skipType_colon (hstops : ∀ c, stops c = true → c = '=') (ht : IsPunct ':' t) :
    skipType stops depth begun (t :: rest) = skipType stops depth true rest := by
  have hends : ¬ endsType stops depth begun t := by
    rw [endsType, ht]
    rintro ⟨-, h | h⟩
    · exact absurd (hstops _ h) (by decide)
    · exact absurd h (by decide)
  rw [skipType_of_not_ends hends, depthBehind, ht]
  rfl

/-- What is behind a type ends a type. -/
lemma ends_of_skipType {ts : List Lexeme} (h : skipType stops depth begun ts = t :: rest) :
    ∃ depth begun, endsType stops depth begun t := by
  induction ts generalizing depth begun with
  | nil => cases h
  | cons u ts ih =>
    by_cases hends : endsType stops depth begun u
    · rw [skipType_of_ends hends] at h
      obtain ⟨rfl, -⟩ := List.cons.inj h
      exact ⟨depth, begun, hends⟩
    · rw [skipType_of_not_ends hends] at h
      exact ih h

end Skip

/-! ## Skipping casts -/

section Casts

variable {t : Lexeme} {rest : List Lexeme}

/-- Behind an expression a cast begins. -/
def startsCast (t : Lexeme) : Prop :=
  ∃ w, t.token = .word w ∧ isCast w = true

/-- A sign is no cast. -/
lemma not_startsCast_of_isPunct {c : Char} (ht : IsPunct c t) : ¬ startsCast t := by
  rintro ⟨w, hw, -⟩
  exact absurd (ht.symm.trans hw) nofun

/-- What ends a type is no cast and no operator. -/
lemma not_startsCast_of_ends {depth : Nat} {begun : Bool}
    (h : endsType (fun _ => false) depth begun t) (rest : List Lexeme) :
    ¬ startsCast t ∧ EndsExpression (t :: rest) := by
  unfold endsType at h
  split at h
  · next c ht =>
    refine ⟨not_startsCast_of_isPunct ht, fun d hd => atSign_eq_false ?_⟩
    · rw [ht]
      rintro ⟨⟩
      have hdelimiter := h.2.resolve_left Bool.false_ne_true
      simp only [operatorSigns, List.mem_cons, List.not_mem_nil, or_false] at hd hdelimiter
      rcases hdelimiter with rfl | rfl | rfl | rfl | rfl <;> simp at hd
  · next w ht =>
    refine ⟨?_, fun d _ => atSign_eq_false (by simp [ht])⟩
    rintro ⟨w', hw', hcast⟩
    obtain rfl : w = w' := by simpa [ht] using hw'
    obtain ⟨-, -, -, hstatement⟩ := h
    simp only [isCast, Bool.or_eq_true, beq_iff_eq] at hcast
    rcases hcast with rfl | rfl <;> exact absurd hstatement (by decide)
  · exact h.elim

/-- Where no cast begins nothing is skipped. -/
lemma skipCasts_of_not_startsCast (h : ¬ startsCast t) : skipCasts (t :: rest) = t :: rest := by
  rw [skipCasts.eq_def]
  split
  · next w _ _ _ rest' heq =>
    obtain ⟨rfl, rfl⟩ := List.cons.inj heq
    rw [if_neg fun hcast => h ⟨w, rfl, hcast⟩]
  · rfl

/-- Behind a type no cast begins, and no operator stands there. -/
lemma skipCasts_skipType (depth : Nat) (begun : Bool) (ts : List Lexeme) :
    skipCasts (skipType (fun _ => false) depth begun ts) =
        skipType (fun _ => false) depth begun ts ∧
      EndsExpression (skipType (fun _ => false) depth begun ts) := by
  cases hskip : skipType (fun _ => false) depth begun ts with
  | nil =>
    rw [skipCasts.eq_def]
    exact ⟨rfl, fun _ _ => rfl⟩
  | cons t rest =>
    obtain ⟨depth', begun', hends⟩ := ends_of_skipType hskip
    obtain ⟨hcast, hend⟩ := not_startsCast_of_ends hends rest
    exact ⟨skipCasts_of_not_startsCast hcast, hend⟩

/-- A cast is skipped with its type. -/
lemma skipCasts_of_startsCast (h : startsCast t) :
    skipCasts (t :: rest) = skipType (fun _ => false) 0 false rest := by
  obtain ⟨token, offset, afterBreak, source⟩ := t
  obtain ⟨w, rfl, hcast⟩ := h
  rw [skipCasts, if_pos hcast]
  exact (skipCasts_skipType 0 false rest).1

end Casts

/-! ## Skipping types without annotations -/

section Erases

variable {us us' ts ts' : List Lexeme}

/-- A type is skipped up to the same token, or nothing goes on behind it.

**Proof sketch.** Induction on what is erased. Tokens that are alike end a type together and count
alike, so both searches go on in step. A name with an annotation is either where the type ends, and
then the colon behind it stops the reader, or it is skipped with its annotation up to the equals
sign, where both lists meet again. -/
theorem skipType_erases {stops : Char → Bool} (hstops : ∀ c, stops c = true → c = '=')
    (hend : EndAlike us us') {stage : Stage} (h : Erases us us' stage ts ts') (depth : Nat)
    (begun : Bool) (hlength : us.length ≤ (skipType stops depth begun ts).length) :
    Erases us us' .outside (skipType stops depth begun ts) (skipType stops depth begun ts') ∨
      IsStuck (skipType stops depth begun ts) := by
  induction h generalizing depth begun with
  | behind =>
    refine .inl ?_
    rcases hend with ⟨rfl, rfl⟩ | ⟨hclose, hclose'⟩
    · exact .behind
    · obtain ⟨t, rest, rfl, ht⟩ := exists_of_atSign hclose
      obtain ⟨t', rest', rfl, ht'⟩ := exists_of_atSign hclose'
      by_cases hends : endsType stops depth begun t
      · rw [skipType_of_ends hends,
          skipType_of_ends ((endsType_of_alike (alike_of_isPunct ht ht')).2 hends)]
        exact .behind
      · rw [skipType_of_not_ends hends] at hlength
        have := length_skipType_le stops (depthBehind depth t) true rest
        simp only [List.length_cons] at hlength
        omega
  | @keep t t' ts ts' ht h ih =>
    by_cases hends : endsType stops depth begun t
    · rw [skipType_of_ends hends, skipType_of_ends ((endsType_of_alike ht).2 hends)]
      exact .inl (.keep ht h)
    · rw [skipType_of_not_ends hends] at hlength ⊢
      rw [skipType_of_not_ends (mt (endsType_of_alike ht).1 hends), depthBehind_of_alike ht]
      exact ih _ _ hlength
  | @keyword t t' ts ts' w ht hword hdeclarator h ih =>
    by_cases hends : endsType stops depth begun t
    · rw [skipType_of_ends hends, skipType_of_ends ((endsType_of_alike ht).2 hends)]
      exact .inl (.keyword ht hword hdeclarator h)
    · rw [skipType_of_not_ends hends] at hlength ⊢
      rw [skipType_of_not_ends (mt (endsType_of_alike ht).1 hends), depthBehind_of_alike ht]
      exact ih _ _ hlength
  | @typed name name' colon equals equals' type ts ts' w hname hname' hbreak hcolon
      htype hequals hequals' h ih =>
    by_cases hends : endsType stops depth begun name
    · rw [skipType_of_ends hends]
      exact .inr ⟨name, colon, _, w, rfl, hname, hcolon⟩
    -- behind the annotation both lists go on with the equals sign
    have hskip : skipType stops depth begun (name :: colon :: (type ++ equals :: ts)) =
        skipType stops depth true (equals :: ts) := by
      rw [skipType_of_not_ends hends, depthBehind_of_word hname, skipType_colon hstops hcolon]
      exact skipType_append hstops htype depth _
    have hends' : ¬ endsType stops depth begun name' := by
      rw [endsType, hname', hbreak]
      simp
    rw [hskip] at hlength ⊢
    rw [skipType_of_not_ends hends', depthBehind_of_word hname']
    have halike := alike_of_isPunct hequals hequals'
    by_cases hstop : endsType stops depth true equals
    · rw [skipType_of_ends hstop, skipType_of_ends ((endsType_of_alike halike).2 hstop)]
      exact .inl (.keep halike h)
    · rw [skipType_of_not_ends hstop] at hlength ⊢
      rw [skipType_of_not_ends (mt (endsType_of_alike halike).1 hstop), depthBehind_of_alike halike]
      exact ih _ _ hlength

/-- A declarator is no cast. -/
lemma not_startsCast_of_isDeclarator {t : Lexeme} {w : String} (ht : t.token = .word w)
    (hdeclarator : isDeclarator w = true) : ¬ startsCast t := by
  rintro ⟨w', hw', hcast⟩
  obtain rfl : w = w' := by simpa [ht] using hw'
  simp only [isCast, Bool.or_eq_true, beq_iff_eq] at hcast
  rcases hcast with rfl | rfl <;> exact absurd hdeclarator (by decide)

/-- Casts are skipped up to the same token, or nothing goes on behind them. -/
theorem skipCasts_erases (hend : EndAlike us us') {stage : Stage} (h : Erases us us' stage ts ts')
    (hlength : us.length ≤ (skipCasts ts).length) (hends : EndsExpression (skipCasts ts)) :
    (Erases us us' .outside (skipCasts ts) (skipCasts ts') ∨ IsStuck (skipCasts ts)) ∧
      EndsExpression (skipCasts ts') := by
  have hnone : ∀ c, (fun _ : Char => false) c = true → c = '=' := nofun
  cases h with
  | behind =>
    rcases hend with ⟨rfl, rfl⟩ | ⟨hclose, hclose'⟩
    · rw [skipCasts.eq_def]
      exact ⟨.inl .behind, fun _ _ => rfl⟩
    · obtain ⟨t, rest, rfl, ht⟩ := exists_of_atSign hclose
      obtain ⟨t', rest', rfl, ht'⟩ := exists_of_atSign hclose'
      rw [skipCasts_of_not_startsCast (not_startsCast_of_isPunct ht)] at hends ⊢
      rw [skipCasts_of_not_startsCast (not_startsCast_of_isPunct ht')]
      exact ⟨.inl .behind,
        fun c hc => (atSign_of_alike (alike_of_isPunct ht ht') c _ _).trans (hends c hc)⟩
  | @keep t t' ts ts' ht h =>
    have hiff : startsCast t' ↔ startsCast t := by simp only [startsCast, ht.word_iff]
    by_cases hcast : startsCast t
    · rw [skipCasts_of_startsCast hcast] at hlength ⊢
      rw [skipCasts_of_startsCast (hiff.2 hcast)]
      exact ⟨skipType_erases hnone hend h 0 false hlength, (skipCasts_skipType 0 false ts').2⟩
    · rw [skipCasts_of_not_startsCast hcast] at hends ⊢
      rw [skipCasts_of_not_startsCast (mt hiff.1 hcast)]
      exact ⟨.inl (.keep ht h), fun c hc => (atSign_of_alike ht c ts ts').trans (hends c hc)⟩
  | @keyword t t' ts ts' w ht hword hdeclarator h =>
    have hcast := not_startsCast_of_isDeclarator hword hdeclarator
    have hcast' := not_startsCast_of_isDeclarator (ht.word hword) hdeclarator
    rw [skipCasts_of_not_startsCast hcast] at hends ⊢
    rw [skipCasts_of_not_startsCast hcast']
    exact ⟨.inl (.keyword ht hword hdeclarator h),
      fun c hc => (atSign_of_alike ht c ts ts').trans (hends c hc)⟩
  | @typed name name' colon equals equals' type ts ts' w hname hname' hbreak hcolon
      htype hequals hequals' h =>
    have hgoes : ∀ {begun : Bool} {t : Lexeme} {rest : List Lexeme}, IsPunct '=' t →
        skipType (fun _ => false) 0 begun (t :: rest) =
          skipType (fun _ => false) 0 true rest := by
      intro begun t rest ht
      have hnot : ¬ endsType (fun _ => false) 0 begun t := by
        rw [endsType, ht]
        simp
      rw [skipType_of_not_ends hnot, depthBehind, ht]
      rfl
    by_cases hcast : isCast w = true
    · have hskip : skipCasts (name :: colon :: (type ++ equals :: ts)) =
          skipType (fun _ => false) 0 true ts := by
        rw [skipCasts_of_startsCast ⟨w, hname, hcast⟩, skipType_colon hnone hcolon,
          @skipType_append _ hnone _ 0 htype 0, hgoes hequals]
      rw [hskip] at hlength ⊢
      rw [skipCasts_of_startsCast ⟨w, hname', hcast⟩, hgoes hequals']
      exact ⟨skipType_erases hnone hend h 0 true hlength, (skipCasts_skipType 0 true ts').2⟩
    · have hnot : ∀ {t : Lexeme}, t.token = .word w → ¬ startsCast t := by
        rintro t ht ⟨w', hw', hcast'⟩
        obtain rfl : w = w' := by simpa [ht] using hw'
        exact hcast hcast'
      rw [skipCasts_of_not_startsCast (hnot hname), skipCasts_of_not_startsCast (hnot hname')]
      exact ⟨.inr ⟨name, colon, _, w, rfl, hname, hcolon⟩,
        fun c _ => atSign_eq_false (by simp [hname'])⟩

end Erases

end Reader

end CardTable.Script
