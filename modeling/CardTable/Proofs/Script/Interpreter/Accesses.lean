import CardTable.Proofs.Script.Interpreter.FollowedReadings

set_option autoImplicit false

/-!
# Runs of accesses

A run makes one access after the other, by a name or by a key in brackets, on what the accesses in
front of it have led to. The reader collects the accesses, and they are made when the tree is
evaluated. Both come to the same, also where a breach is found behind some of the accesses: they are
made first, and their failures count.

## Main definitions

* `CardTable.Script.Interpreter.accessesBehind` — the accesses that follow one whose key is known.

## Main results

* `CardTable.Script.Interpreter.performs_link` — one access more.
* `CardTable.Script.Interpreter.accesses_performed` — all accesses.
* `CardTable.Script.Interpreter.index_performed` — a key in brackets.
-/

namespace CardTable.Script.Interpreter

open Cursor (Kind Tok)

variable {ts us : List Lexeme} {stop : Nat} {broken asked checked : Bool} {scope : Scope}
  {inner : Substitution → Expr} {Q : Failure → Prop} {n : Nat}

/-! ## What accesses lead to -/

/-- The value of a chain is what its accesses reach. -/
lemma eval_chained (base : Expr) (read : List Link) :
    (Reader.chained base read).eval scope =
      (reachedBy scope base read >>= fun reached => .ok (reached.getD none)) := by
  cases read with
  | nil =>
    rw [Reader.chained, reachedBy]
    cases base.eval scope <;> rfl
  | cons link read =>
    rw [Reader.chained, Expr.eval, reachedBy, bind_assoc]

/-- The last access of a chain starts from what the others reach. -/
lemma reachedBy_cons (base : Expr) (link : Link) (read : List Link) :
    reachedBy scope base (link :: read) =
      (reachedBy scope base read >>= fun reached => evalLinks scope reached [link]) := by
  simp only [reachedBy, List.reverse_cons, evalLinks_append, bind_assoc]

/-- Only a sign is of the kind of a sign. -/
lemma of_eq_sign_iff {t : Script.Token} {s : Sign} : Kind.of t = .sign s ↔ t = .sign s := by
  cases t <;> simp [Kind.of]

/-- The key of an access is evaluated before the access is made. -/
lemma evalLinks_computed (reached : Reached) (optional : Bool) (key : Expr) :
    evalLinks scope reached [.computed optional key] =
      (keyOf scope key >>= fun key => access optional key reached) := by
  simp only [evalLinks, keyOf, bind_map_left]
  congr 1
  funext v
  cases access optional (propertyKey v) reached <;> rfl

/-- An access with a name is made with this name. -/
lemma evalLinks_named (reached : Reached) (optional : Bool) (key : String) :
    evalLinks scope reached [.named optional key] = access optional key reached := by
  simp only [evalLinks]
  cases access optional key reached <;> rfl

/-! ## Steps -/

/-- The accesses that follow one by the key and with the index that have been read. -/
def accessesBehind (checked : Bool) (scope : Scope) (toks : Tokens) (optional : Bool)
    (reached : Reached) (a : String × Nat) : Run (Option Value × Nat) := do
  toks.accesses checked scope (← Run.ofExcept (access optional a.1 reached)) a.2

section Steps

variable {t : Lexeme} {rest : List Lexeme} (h : t :: rest <:+ ts) (reached : Reached)

/-- Where the accesses end, what has been reached is the value. -/
lemma accesses_of_endsLinks (h : us <:+ ts) (hend : Reader.endsLinks us = true)
    (reached : Reached) :
    (tokensOf ts stop broken).accesses checked scope reached (place ts us) =
      pure (reached.getD none, place ts us) := by
  rw [Tokens.accesses, peek_place h, pure_bind]
  cases us with
  | nil => rfl
  | cons t rest =>
    rw [kindOf]
    unfold Reader.endsLinks at hend
    split <;> simp_all [of_eq_sign_iff, peekAhead_place h, isPunct_kindOf]

include h

/-- A dot reads a name. -/
lemma accesses_of_dot (ht : t.token = .sign (.punct '.')) :
    (tokensOf ts stop broken).accesses checked scope reached (place ts (t :: rest)) =
      (propertyName (tokensOf ts stop broken) (place ts rest) >>=
        accessesBehind checked scope (tokensOf ts stop broken) false reached) := by
  rw [Tokens.accesses, peek_place h, pure_bind, kindOf, of_eq_sign_iff.2 ht]
  dsimp only
  rw [next_place h, pure_bind]
  rfl

/-- A bracket reads a key. -/
lemma accesses_of_bracket (ht : t.token = .sign (.punct '[')) :
    (tokensOf ts stop broken).accesses checked scope reached (place ts (t :: rest)) =
      ((tokensOf ts stop broken).index checked scope (place ts rest) >>=
        accessesBehind checked scope (tokensOf ts stop broken) false reached) := by
  rw [Tokens.accesses, peek_place h, pure_bind, kindOf, of_eq_sign_iff.2 ht]
  dsimp only
  rw [next_place h, pure_bind]
  rfl

/-- An optional dot reads a key if a bracket is behind it, and otherwise a name. -/
lemma accesses_of_optionalDot (ht : t.token = .sign .optionalDot) :
    (tokensOf ts stop broken).accesses checked scope reached (place ts (t :: rest)) =
      ((if atSign '[' rest then
        (tokensOf ts stop broken).index checked scope (place ts rest.tail)
        else propertyName (tokensOf ts stop broken) (place ts rest)) >>=
          accessesBehind checked scope (tokensOf ts stop broken) true reached) := by
  have hrest : rest <:+ ts := isSuffix_tail h
  rw [Tokens.accesses, peek_place h, pure_bind, kindOf, of_eq_sign_iff.2 ht]
  dsimp only
  rw [next_place h, pure_bind, List.tail_cons, eat_place hrest]
  cases atSign '[' rest <;> rfl

/-- A mark that a value is there is skipped. -/
lemma accesses_of_bang (ht : t.token = .sign (.punct '!')) (hequals : ¬ atSign '=' rest) :
    (tokensOf ts stop broken).accesses checked scope reached (place ts (t :: rest)) =
      (tokensOf ts stop broken).accesses checked scope reached (place ts rest) := by
  rw [Tokens.accesses, peek_place h, pure_bind, kindOf, of_eq_sign_iff.2 ht]
  dsimp only
  rw [peekAhead_place h, pure_bind, isPunct_kindOf, List.tail_cons, if_neg hequals, next_place h,
    List.tail_cons]
  rfl

/-- A call is refused where it stands. -/
lemma accesses_of_call (ht : t.token = .sign (.punct '(')) :
    (tokensOf ts stop broken).accesses checked scope reached (place ts (t :: rest)) =
      Run.fail (.fault ⟨t.offset, .call⟩) := by
  rw [Tokens.accesses, peek_place h, pure_bind, kindOf, of_eq_sign_iff.2 ht]
  exact refuse_place h _

end Steps

/-! ## Accesses one by one -/

section Links

variable {base : Expr} {read : List Link} {r : Run Reached}
  (hr : r.Gives (fun reached => ∀ v ∈ reached, Spares? asked v) Q (reachedBy scope base read))

include hr

/-- No access more is made. -/
lemma performs_linksEnd (h : us <:+ ts) (hend : Reader.endsLinks us = true)
    (hshort : us.length < n) :
    IsEvaluated scope asked Q ts
      (r >>= fun reached => (tokensOf ts stop broken).accesses checked scope reached (place ts us))
      (.whole (Reader.chained base read) us hshort : Reading Expr n) := by
  refine ⟨h, ?_⟩
  rw [eval_chained]
  refine hr.bind ?_
  rintro reached _ ⟨rfl, hreached⟩
  rw [accesses_of_endsLinks h hend]
  refine Run.follows_pure ⟨rfl, fun w hw => ?_⟩
  cases reached with
  | none => cases hw
  | some v => exact hreached v rfl w hw

/-- A breach is found behind the accesses. -/
lemma performs_linksFault {f : Fault} (hf : Q (.fault f))
    (hfail : ∀ reached, (tokensOf ts stop broken).accesses checked scope reached (place ts us) =
      Run.fail (.fault f)) :
    IsEvaluated scope asked Q ts
      (r >>= fun reached => (tokensOf ts stop broken).accesses checked scope reached (place ts us))
      (.cut (.cut (some (Reader.chained base read)) f) : Reading Expr n) := by
  refine performs_cut ?_
  rw [eval_cut, eval_chained, bind_assoc]
  refine hr.bind fun _ _ _ => ?_
  rw [hfail]
  exact Run.follows_halt hf

/-- **One access** more is made. -/
theorem performs_link (hQ : Reports Q (.of stop ts) ts) {behind : List Lexeme} {link : Link}
    {optional : Bool} {key : Run (String × Nat)} {x : Except Failure String}
    {reading : Reading Expr n} (hkey : key.Follows (Stands (fun _ => True) ts behind) Q x)
    (hlink : ∀ reached, evalLinks scope reached [link] =
      (x >>= fun key => access optional key reached))
    (hstep : ∀ reached, (tokensOf ts stop broken).accesses checked scope reached (place ts us) =
      (key >>= accessesBehind checked scope (tokensOf ts stop broken) optional reached))
    (hlater : ∀ r, r.Gives (fun reached => ∀ v ∈ reached, Spares? asked v) Q
        (reachedBy scope base (link :: read)) → IsEvaluated scope asked Q ts
      (r >>= fun reached => (tokensOf ts stop broken).accesses checked scope reached
        (place ts behind)) reading) :
    IsEvaluated scope asked Q ts
      (r >>= fun reached => (tokensOf ts stop broken).accesses checked scope reached (place ts us))
      reading := by
  have hgiven : (r >>= fun reached => (key >>= fun a => pure a.1) >>= fun key =>
      Run.ofExcept (access optional key reached)).Gives
        (fun reached => ∀ v ∈ reached, Spares? asked v) Q
        (reachedBy scope base (link :: read)) := by
    rw [reachedBy_cons]
    refine hr.bind ?_
    rintro _ reached ⟨rfl, hreached⟩
    rw [hlink]
    refine (gives_first hkey).bind ?_
    rintro key _ ⟨rfl, -⟩
    exact Run.gives_ofExcept (fun _ => spares_access hreached) fun f hf =>
      hQ.other f (isPlain_of_access hf)
  have hnext := hlater _ hgiven
  have hstep' : ∀ reached, (tokensOf ts stop broken).accesses checked scope reached (place ts us) =
      ((key >>= fun a => pure a.1) >>= fun key => Run.ofExcept (access optional key reached) >>=
        fun reached => (tokensOf ts stop broken).accesses checked scope reached
          (place ts behind)) := fun reached => (hstep reached).trans (bind_place hkey _)
  simpa only [bind_assoc, hstep'] using hnext

/-- A key in brackets, and the accesses behind it. -/
lemma performs_computed (hQ : Reports Q (.of stop ts) ts) {vs : List Lexeme} {optional : Bool}
    (hstep : ∀ reached, (tokensOf ts stop broken).accesses checked scope reached (place ts us) =
      ((tokensOf ts stop broken).index checked scope (place ts vs) >>=
        accessesBehind checked scope (tokensOf ts stop broken) optional reached))
    (hindex : Performs (keyOf scope) (fun _ => True) Q ts
      ((tokensOf ts stop broken).index checked scope (place ts vs))
      (Reader.index (.of stop ts) inner vs))
    (hlater : ∀ behind, behind <:+ ts → behind.length < vs.length →
      ArePerformed asked checked scope inner Q ts stop broken behind) (hn : vs.length ≤ n) :
    IsEvaluated scope asked Q ts
      (r >>= fun reached => (tokensOf ts stop broken).accesses checked scope reached (place ts us))
      (match Reader.index (.of stop ts) inner vs with
        | .cut key => .cut (Reader.chained base (.computed optional key :: read))
        | .whole key behind h =>
          (Reader.links (.of stop ts) inner base (.computed optional key :: read) behind).weaken
            (Nat.le_trans h hn) : Reading Expr n) := by
  split
  · next key hcut =>
    rw [hcut] at hindex
    refine performs_cut ?_
    rw [eval_chained, reachedBy_cons, bind_assoc]
    refine hr.bind ?_
    rintro reached _ ⟨rfl, -⟩
    rw [hstep, evalLinks_computed, bind_assoc]
    exact hindex.bind fun _ _ => False.elim
  · next key behind hshort hwhole =>
    rw [hwhole] at hindex
    obtain ⟨hbehind, hkey⟩ := hindex
    refine (performs_link hr hQ hkey (fun reached => evalLinks_computed reached optional key) hstep
      fun r hr => ?_).weaken _
    exact (hlater behind hbehind hshort).accesses base _ r hr

/-- A name, and the accesses behind it. -/
lemma performs_named (hQ : Reports Q (.of stop ts) ts) {vs : List Lexeme} (hvs : vs <:+ ts)
    {optional : Bool} {name : String} (hname : headWord? vs = some name)
    (hstep : ∀ reached, (tokensOf ts stop broken).accesses checked scope reached (place ts us) =
      (propertyName (tokensOf ts stop broken) (place ts vs) >>=
        accessesBehind checked scope (tokensOf ts stop broken) optional reached))
    (hlater : ArePerformed asked checked scope inner Q ts stop broken vs.tail) :
    IsEvaluated scope asked Q ts
      (r >>= fun reached => (tokensOf ts stop broken).accesses checked scope reached (place ts us))
      (Reader.links (.of stop ts) inner base (.named optional name :: read) vs.tail) := by
  have hkey : (propertyName (tokensOf ts stop broken) (place ts vs)).Follows
      (Stands (fun _ => True) ts vs.tail) Q (.ok name) := by
    rw [propertyName_place hvs, hname]
    exact Run.follows_pure ⟨rfl, trivial⟩
  exact performs_link hr hQ hkey (fun reached => evalLinks_named reached optional name) hstep
    fun r hr => hlater.accesses base _ r hr

/-- No name is found. -/
lemma performs_unnamed (hQ : Reports Q (.of stop ts) ts) {vs : List Lexeme} (hvs : vs <:+ ts)
    (optional : Bool) (hname : headWord? vs = none)
    (hstep : ∀ reached, (tokensOf ts stop broken).accesses checked scope reached (place ts us) =
      (propertyName (tokensOf ts stop broken) (place ts vs) >>=
        accessesBehind checked scope (tokensOf ts stop broken) optional reached)) :
    IsEvaluated scope asked Q ts
      (r >>= fun reached => (tokensOf ts stop broken).accesses checked scope reached (place ts us))
      (.cut (.cut (some (Reader.chained base read))
        ⟨(TextEnd.of stop ts).offsetOf vs.tail, .propertyName⟩) : Reading Expr n) := by
  refine performs_linksFault hr (hQ.fault _ rfl) fun reached => ?_
  rw [hstep, propertyName_place hvs, hname]
  rfl

end Links

/-! ## All accesses -/

/-- Tokens that do not begin with a word have none in front. -/
lemma headWord?_eq_none (h : ∀ w offset afterBreak source rest,
    us = ⟨.word w, offset, afterBreak, source⟩ :: rest → False) : headWord? us = none := by
  unfold headWord?
  split
  · exact (h _ _ _ _ _ rfl).elim
  · rfl

/-- Tokens that do not begin with a bracket have none in front. -/
lemma atSign_bracket_eq_false (h : ∀ offset afterBreak source rest,
    us = ⟨.sign (.punct '['), offset, afterBreak, source⟩ :: rest → False) :
    atSign '[' us = false := by
  cases us with
  | nil => rfl
  | cons t rest =>
    refine Reader.atSign_eq_false fun ht => ?_
    obtain ⟨token, offset, afterBreak, source⟩ := t
    obtain rfl : token = .sign (.punct '[') := ht
    exact h _ _ _ _ rfl

/-- **Accesses** are made as they are read. -/
theorem accesses_performed (hQ : Reports Q (.of stop ts) ts) (h : us <:+ ts)
    (ih : ∀ vs, vs <:+ ts → vs.length < us.length →
      ArePerformed asked checked scope inner Q ts stop broken vs)
    (base : Expr) (read : List Link) {r : Run Reached}
    (hr : r.Gives (fun reached => ∀ v ∈ reached, Spares? asked v) Q
      (reachedBy scope base read)) :
    IsEvaluated scope asked Q ts
      (r >>= fun reached => (tokensOf ts stop broken).accesses checked scope reached (place ts us))
      (Reader.links (.of stop ts) inner base read us) := by
  cases us with
  | nil =>
    unfold Reader.links
    exact performs_linksEnd hr h rfl _
  | cons t rest =>
  have hrest : rest <:+ ts := isSuffix_tail h
  have hlater : ∀ vs, vs <:+ ts → vs.length ≤ rest.length →
      ArePerformed asked checked scope inner Q ts stop broken vs :=
    fun vs hvs hlength => ih vs hvs (Nat.lt_succ_of_le hlength)
  rw [Reader.links.eq_def]
  dsimp only
  split
  · next ht =>
    split
    · next rest =>
      exact (performs_named hr hQ hrest rfl (fun reached => accesses_of_dot h reached ht)
        (hlater rest (isSuffix_tail hrest) (Nat.le_succ _))).weaken _
    · next hword =>
      exact performs_unnamed hr hQ hrest false (headWord?_eq_none hword)
        fun reached => accesses_of_dot h reached ht
  · next ht =>
    split
    · next rest =>
      exact (performs_named hr hQ hrest rfl (fun reached => accesses_of_optionalDot h reached ht)
        (hlater rest (isSuffix_tail hrest) (Nat.le_succ _))).weaken _
    · next rest =>
      have hbehind : rest <:+ ts := isSuffix_tail hrest
      exact performs_computed hr hQ (fun reached => accesses_of_optionalDot h reached ht)
        (hlater rest hbehind (Nat.le_succ _)).index
        (fun vs hvs hlength => hlater vs hvs (Nat.le_succ_of_le (Nat.le_of_lt hlength)))
        (Nat.le_add_right _ 3)
    · next hword hbracket =>
      refine performs_unnamed hr hQ hrest true (headWord?_eq_none hword) fun reached => ?_
      rw [accesses_of_optionalDot h reached ht, atSign_bracket_eq_false hbracket,
        if_neg Bool.false_ne_true]
  · next ht =>
    exact performs_computed hr hQ (fun reached => accesses_of_bracket h reached ht)
      (hlater rest hrest (Nat.le_refl _)).index
      (fun vs hvs hlength => hlater vs hvs (Nat.le_of_lt hlength)) (Nat.le_add_right _ 2)
  · next ht =>
    split
    · next hequals => exact performs_linksEnd hr h (by simp only [Reader.endsLinks, ht, hequals]) _
    · next hequals =>
      simp only [accesses_of_bang h _ ht hequals]
      exact ((hlater rest hrest (Nat.le_refl _)).accesses base read r hr).weaken _
  · next ht =>
    exact performs_linksFault hr (hQ.fault _ rfl) fun reached => accesses_of_call h reached ht
  · next h1 h2 h3 h4 h5 =>
    refine performs_linksEnd hr h ?_ _
    unfold Reader.endsLinks
    split <;> simp_all

/-! ## Keys in brackets -/

/-- A key up to the bracket that closes it. -/
theorem index_performed (hQ : Reports Q (.of stop ts) ts)
    (hexpression : IsEvaluated scope asked Q ts
      ((tokensOf ts stop broken).expression checked scope (place ts us))
      (Reader.expression (.of stop ts) inner us)) :
    Performs (keyOf scope) (fun _ => True) Q ts
      ((tokensOf ts stop broken).index checked scope (place ts us))
      (Reader.index (.of stop ts) inner us) := by
  rw [Tokens.index, Reader.index]
  split
  · next hcut =>
    rw [hcut] at hexpression
    exact hexpression.bind fun _ _ => False.elim
  · next e behind hshort hwhole =>
    rw [hwhole] at hexpression
    obtain ⟨hbehind, hrun⟩ := hexpression
    rw [bind_place hrun]
    refine performs_closed hQ hbehind (gives_first hrun) ']' (fun _ _ => trivial) ?_ ?_ hshort
    · rw [keyOf, map_eq_pure_bind]
      rfl
    · intro f
      rw [keyOf, eval_cut, map_bind]
      rfl

end CardTable.Script.Interpreter
