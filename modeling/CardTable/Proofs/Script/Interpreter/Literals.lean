import CardTable.Proofs.Script.Interpreter.FollowedReadings

set_option autoImplicit false

/-!
# Runs of object and array literals

A run puts the parts of a literal together one by one, as they stand, while the reader collects them
for their evaluation. What stands behind a part is the same for objects and arrays: a comma and more
parts, or the closing bracket.

## Main results

* `CardTable.Script.Interpreter.property_performed`,
  `CardTable.Script.Interpreter.element_performed` — one part of a literal.
* `CardTable.Script.Interpreter.performs_parts` — what stands behind a part.
* `CardTable.Script.Interpreter.object_performed`, `CardTable.Script.Interpreter.array_performed` —
  object and array literals.
-/

namespace CardTable.Script.Interpreter

open Cursor (Kind Tok)

variable {ts us : List Lexeme} {stop : Nat} {broken asked checked : Bool} {scope : Scope}
  {inner : Substitution → Expr} {Q : Failure → Prop} {n : Nat}

/-! ## Behind a part -/

/-- The reading of a literal whose last part has been read as it has: behind a comma there is `more`
of it, and a breach is one part more. -/
def readBehind {β : Type} (fin : TextEnd) (close : Char) (literal : List β → Expr)
    (cutPart : Fault → β) (more : List β → (us : List Lexeme) → Reading Expr us.length)
    (read : List β) : Reading β n → Reading Expr n
  | .cut part => .cut (literal (part :: read))
  | .whole part behind hpart =>
    match Reader.sign? ',' behind with
    | some ⟨rest, h⟩ => (more (part :: read) rest).weaken (Nat.le_of_lt (Nat.lt_trans h hpart))
    | none =>
      match Reader.expectSign fin close behind with
      | .error f => .cut (literal (cutPart f :: part :: read))
      | .ok ⟨rest, h⟩ => .whole (literal (part :: read)) rest (Nat.lt_trans h hpart)

/-- **Behind a part** of a literal stands a comma with more parts, or the closing bracket.

**Proof sketch.** By the reading of the part. Cut short, it has no value, nor has the run. Read to
its end, it is followed by a comma, and then the run goes on as the reader does, or by something
else, and then both ask for the closing bracket (`performs_closed`). -/
theorem performs_parts {α β : Type} {S : α → Prop} (values : List β → Except Failure α)
    (wrap : α → Value) {literal : List β → Expr} {cutPart : Fault → β} {close : Char}
    {goOn : α → Nat → Run (Option Value × Nat)}
    {more : List β → (us : List Lexeme) → Reading Expr us.length} {read : List β}
    {r : Run (α × Nat)} {reading : Reading β n} (hQ : Reports Q (.of stop ts) ts)
    (hpart : Performs (fun part => values (part :: read)) S Q ts r reading)
    (hwrap : ∀ v, S v → Spares asked (wrap v))
    (hliteral : ∀ parts, (literal parts).eval scope = values parts >>= fun v => .ok (some (wrap v)))
    (hcut : ∀ f parts, values (cutPart f :: parts) = values parts >>= fun _ => .error (.fault f))
    (hlater : ∀ part rest r', rest <:+ ts → rest.length < n → r'.Gives S Q (values (part :: read)) →
      IsEvaluated scope asked Q ts (r' >>= fun v => goOn v (place ts rest))
        (more (part :: read) rest)) :
    IsEvaluated scope asked Q ts
      (r >>= fun a => do
        let found ← eat (tokensOf ts stop broken) ',' a.2
        if found.1 then goOn a.1 found.2
        else return (some (wrap a.1), ← expect (tokensOf ts stop broken) close found.2))
      (readBehind (.of stop ts) close literal cutPart more read reading) := by
  cases reading with
  | cut part =>
    refine performs_cut ?_
    rw [hliteral]
    exact hpart.bind fun _ _ => False.elim
  | whole part behind hshort =>
  obtain ⟨hbehind, hrun⟩ := hpart
  rw [bind_place hrun, readBehind]
  split
  · next rest hrest hcomma =>
    obtain ⟨hsuffix, heat⟩ := eat_of_sign? stop broken hbehind hcomma
    simp only [heat, pure_bind]
    exact (hlater part rest _ hsuffix (Nat.lt_trans hrest hshort) (gives_first hrun)).weaken _
  · next hcomma =>
    simp only [eat_of_not_sign? hbehind hcomma, pure_bind, Bool.false_eq_true, if_false]
    refine performs_closed hQ hbehind (gives_first hrun) close
      (fun v hv => spares?_some.2 (hwrap v hv)) (hliteral _) (fun f => ?_) hshort
    rw [hliteral, hcut, bind_assoc]
    rfl

/-! ## Object literals -/

/-- A name that stands for its own value. -/
lemma lookup_performed (hQ : Reports Q (.of stop ts) ts) (hscope : Scope.Spares asked scope)
    (w : String) (behind : List Lexeme) :
    (do return (← Run.ofExcept (lookup scope w), place ts behind)).Follows
      (Stands (Spares? asked) ts behind) Q (lookup scope w) :=
  Stands.of_gives (Run.gives_ofExcept (fun _ => spares_lookup hscope) fun f hf =>
    hQ.other f (isPlain_of_lookup hf)) behind

/-- The value behind a property name. -/
lemma propertyValue_performed (hQ : Reports Q (.of stop ts) ts) (h : us <:+ ts)
    (ih : ∀ vs, vs <:+ ts → vs.length < us.length →
      ArePerformed asked checked scope inner Q ts stop broken vs) (shorthand : Option String)
    (hshorthand : shorthand = none ∨ ¬(atSign ',' us ∨ atSign '\x7d' us)) :
    IsEvaluated scope asked Q ts
      ((tokensOf ts stop broken).propertyValue checked scope shorthand (place ts us))
      (Reader.propertyValue (.of stop ts) inner us) := by
  rw [Tokens.propertyValue, Reader.propertyValue]
  split
  · next rest hshort hcolon =>
    obtain ⟨hrest, heat⟩ := eat_of_sign? stop broken h hcolon
    rw [heat, pure_bind]
    exact (ih rest hrest hshort).expression.weaken _
  next hcolon =>
  rw [eat_of_not_sign? h hcolon, pure_bind]
  dsimp only
  rw [if_neg (by simp), peek_place h, pure_bind, isPunct_kindOf, isPunct_kindOf]
  have hnone : (shorthand.filter fun _ => atSign ',' us || atSign '\x7d' us) = none := by
    rcases hshorthand with rfl | hends
    · rfl
    · simpa using fun _ _ => hends
  rw [hnone]
  exact performs_fault (refuse_place h _) (by rw [Expr.eval]) (hQ.fault _ rfl)

/-- A property without a value has that of the name. -/
lemma propertyValue_shorthand (h : us <:+ ts) (hends : atSign ',' us ∨ atSign '\x7d' us)
    (w : String) :
    (tokensOf ts stop broken).propertyValue checked scope (some w) (place ts us) =
      (do return (← Run.ofExcept (lookup scope w), place ts us)) := by
  have hcolon : atSign ':' us = false := by
    rcases hends with hend | hend <;> obtain ⟨t, rest, rfl, ht⟩ := Reader.exists_of_atSign hend <;>
      exact ht.atSign_eq_false (by decide) rest
  rw [Tokens.propertyValue, eat_place h, hcolon, if_neg (by simp), pure_bind]
  dsimp only
  rw [if_neg (by simp), peek_place h, pure_bind, isPunct_kindOf, isPunct_kindOf]
  have hsome : ((some w).filter fun _ => atSign ',' us || atSign '\x7d' us) = some w := by
    simpa using hends
  rw [hsome]

/-- The value of a property is evaluated and set. -/
lemma setProperty_performed {fields : Fields Value}
    (hfields : ∀ field ∈ fields, Spares asked field.2) (key : String)
    {r : Run (Option Value × Nat)} {reading : Reading Expr n}
    (hr : IsEvaluated scope asked Q ts r reading) :
    Performs (fun e => e.eval scope >>= fun v => .ok (setProperty fields key v))
      (fun fields => ∀ field ∈ fields, Spares asked field.2) Q ts
      (do
        let (v, pos) ← r
        return (setProperty fields key v, pos)) reading :=
  hr.andThen (fun v => .ok (setProperty fields key v)) fun _ _ hv =>
    Run.follows_pure ⟨rfl, spares_setProperty hfields key hv⟩

/-- **A property with a name** is read and set. -/
theorem namedProperty_performed {fields : Fields Value}
    (hfields : ∀ field ∈ fields, Spares asked field.2) (key : String)
    {r : Run (Option Value × Nat)} {reading : Reading Expr n}
    (hr : IsEvaluated scope asked Q ts r reading) :
    Performs (fun part => evalEntries scope fields [part])
      (fun fields => ∀ field ∈ fields, Spares asked field.2) Q ts
      (do
        let (v, pos) ← r
        return (setProperty fields key v, pos)) (reading.map (.property key)) :=
  (setProperty_performed hfields key hr).map (Entry.property key) fun e => by
    simp only [evalEntries]

/-- The key of a property is evaluated before its value. -/
lemma evalEntries_computed (fields : Fields Value) (key value : Expr) :
    evalEntries scope fields [.computed key value] =
      (keyOf scope key >>= fun key => value.eval scope >>= fun v =>
        .ok (setProperty fields key v)) := by
  simp only [evalEntries, keyOf, bind_map_left]

/-- **A property with a key in brackets** is read and set. -/
theorem computedProperty_performed {fields : Fields Value}
    (hfields : ∀ field ∈ fields, Spares asked field.2)
    (hindex : Performs (keyOf scope) (fun _ => True) Q ts
      ((tokensOf ts stop broken).index checked scope (place ts us))
      (Reader.index (.of stop ts) inner us)) (hn : us.length < n)
    (hvalue : ∀ vs, vs <:+ ts → vs.length < us.length → IsEvaluated scope asked Q ts
      ((tokensOf ts stop broken).propertyValue checked scope none (place ts vs))
      (Reader.propertyValue (.of stop ts) inner vs)) :
    Performs (fun part => evalEntries scope fields [part])
      (fun fields => ∀ field ∈ fields, Spares asked field.2) Q ts
      (do
        let (key, pos) ← (tokensOf ts stop broken).index checked scope (place ts us)
        let (v, pos) ← (tokensOf ts stop broken).propertyValue checked scope none pos
        return (setProperty fields key v, pos))
      (match Reader.index (.of stop ts) inner us with
        | .cut key => .cut (.computed key (.constant none))
        | .whole key behind h =>
          ((Reader.propertyValue (.of stop ts) inner behind).map (.computed key)).weaken
            (Nat.le_of_lt (Nat.lt_trans h hn)) : Reading Entry n) := by
  split
  · next hcut =>
    rw [hcut] at hindex
    refine performs_cut ?_
    rw [evalEntries_computed]
    exact hindex.bind fun _ _ => False.elim
  next key behind hshort hwhole =>
  rw [hwhole] at hindex
  obtain ⟨hbehind, hrun⟩ := hindex
  rw [bind_place hrun]
  have hproperty := performs_behind (gives_first hrun) ⟨"", trivial⟩ fun key _ =>
    setProperty_performed hfields key (hvalue behind hbehind hshort)
  exact (hproperty.map (Entry.computed key) (evalEntries_computed fields key)).weaken _

/-- **A property of any form** is read and set. -/
theorem property_performed (hQ : Reports Q (.of stop ts) ts) (h : us <:+ ts)
    (hscope : Scope.Spares asked scope)
    (ih : ∀ vs, vs <:+ ts → vs.length < us.length →
      ArePerformed asked checked scope inner Q ts stop broken vs) {fields : Fields Value}
    (hfields : ∀ field ∈ fields, Spares asked field.2) :
    Performs (fun part => evalEntries scope fields [part])
      (fun fields => ∀ field ∈ fields, Spares asked field.2) Q ts
      ((tokensOf ts stop broken).property checked scope fields (place ts us))
      (Reader.entry (.of stop ts) inner us) := by
  rw [Tokens.property, advance_place h, pure_bind]
  cases us with
  | nil =>
    rw [Reader.entry]
    exact performs_fault (refuse_place (isSuffix_tail h) _) (by simp only [evalEntries]; rfl)
      (hQ.fault _ rfl)
  | cons t rest =>
  have hrest : rest <:+ ts := isSuffix_tail h
  have hlater := ih rest hrest (Nat.lt_succ_self _)
  have hcut : ∀ m : Nat, Performs (fun part => evalEntries scope fields [part])
      (fun fields => ∀ field ∈ fields, Spares asked field.2) Q ts
      (refuse (tokensOf ts stop broken) (place ts rest) .propertyKey)
      (.cut (.cut ⟨(TextEnd.of stop ts).offsetOf rest, .propertyKey⟩) : Reading Entry m) :=
    fun m => performs_fault (refuse_place hrest _) (by simp only [evalEntries]) (hQ.fault _ rfl)
  obtain ⟨token, offset, afterBreak, source⟩ := t
  rw [Reader.entry, kindOf]
  dsimp only [List.tail_cons]
  cases token with
  | number x =>
    exact (namedProperty_performed hfields _ (hlater.propertyValue none (.inl rfl))).weaken _
  | text s =>
    exact (namedProperty_performed hfields _ (hlater.propertyValue none (.inl rfl))).weaken _
  | template head parts => exact hcut _
  | sign s =>
    cases s with
    | spread =>
      refine ((hlater.expression.andThen (fun v => .ok (Fields.insertAll fields (spreadFields v)))
        fun v behind hv => ?_).map Entry.spread fun e => ?_).weaken _
      · exact Run.follows_pure ⟨rfl, spares_insertAll hfields (spares_spreadFields hv)⟩
      · simp only [evalEntries]
    | optionalDot => exact hcut _
    | punct c =>
      by_cases hbracket : c = '['
      · subst hbracket
        exact computedProperty_performed hfields hlater.index (Nat.lt_succ_self _)
          fun vs hvs hshort => (ih vs hvs (Nat.lt_succ_of_lt hshort)).propertyValue none (.inl rfl)
      · dsimp only [Kind.of]
        split
        case h_5 heq => exact absurd (Sign.punct.inj (Kind.sign.inj heq)) hbracket
        case h_6 =>
          split
          case h_5 heq => exact absurd (Sign.punct.inj (Token.sign.inj heq)) hbracket
          case h_6 => exact hcut _
          all_goals next heq => cases heq
        all_goals next heq => cases heq
  | word w =>
    dsimp only [Kind.of]
    by_cases hends : atSign ',' rest ∨ atSign '\x7d' rest
    · rw [if_pos hends, propertyValue_shorthand hrest hends]
      refine ⟨hrest, ?_⟩
      simp only [evalEntries]
      refine (lookup_performed hQ hscope w rest).bind ?_
      rintro _ v ⟨rfl, hv⟩
      exact Run.follows_pure ⟨rfl, spares_setProperty hfields w hv⟩
    · rw [if_neg hends]
      exact (namedProperty_performed hfields w
        (hlater.propertyValue (some w) (.inr hends))).weaken _

/-- The property that was read last is set last. -/
lemma evalEntries_reverse_cons (read : List Entry) (part : Entry) :
    evalEntries scope [] (part :: read).reverse =
      (evalEntries scope [] read.reverse >>= fun fields => evalEntries scope fields [part]) := by
  rw [List.reverse_cons, evalEntries_append]

/-- Where no brace closes a literal, a property is read. -/
lemma entries_of_open (fin : TextEnd) (read : List Entry)
    (hopen : Reader.sign? '\x7d' us = none) :
    Reader.entries fin inner read us =
      readBehind fin '\x7d' (fun parts => .object parts.reverse) .cut (Reader.entries fin inner)
        read (Reader.entry fin inner us) := by
  rw [Reader.entries, hopen]
  cases Reader.entry fin inner us <;> rfl

/-- Where no brace closes a literal, a property is evaluated and set. -/
lemma object_of_open (h : us <:+ ts) (hopen : Reader.sign? '\x7d' us = none)
    (fields : Fields Value) :
    (tokensOf ts stop broken).object checked scope fields (place ts us) =
      ((tokensOf ts stop broken).property checked scope fields (place ts us) >>= fun a => do
        let found ← eat (tokensOf ts stop broken) ',' a.2
        if found.1 then (tokensOf ts stop broken).object checked scope a.1 found.2
        else return (some (.mapping (sortKeys a.1)),
          ← expect (tokensOf ts stop broken) '\x7d' found.2)) := by
  rw [Tokens.object, eat_of_not_sign? h hopen, pure_bind]
  rfl

/-- **Object literals** are put together as they are read. -/
theorem object_performed (hQ : Reports Q (.of stop ts) ts) (h : us <:+ ts)
    (hscope : Scope.Spares asked scope)
    (ih : ∀ vs, vs <:+ ts → vs.length < us.length →
      ArePerformed asked checked scope inner Q ts stop broken vs) (read : List Entry)
    {r : Run (Fields Value)}
    (hr : r.Gives (fun fields => ∀ field ∈ fields, Spares asked field.2) Q
      (evalEntries scope [] read.reverse)) :
    IsEvaluated scope asked Q ts
      (r >>= fun fields => (tokensOf ts stop broken).object checked scope fields (place ts us))
      (Reader.entries (.of stop ts) inner read us) := by
  cases hclose : Reader.sign? '\x7d' us with
  | some found =>
    obtain ⟨rest, hshort⟩ := found
    obtain ⟨hrest, heat⟩ := eat_of_sign? stop broken h hclose
    rw [Reader.entries, hclose]
    refine ⟨hrest, ?_⟩
    rw [Expr.eval]
    refine hr.bind ?_
    rintro fields _ ⟨rfl, hfields⟩
    rw [Tokens.object, heat, pure_bind]
    exact Run.follows_pure ⟨rfl, spares?_some.2 (spares_sortKeys hfields)⟩
  | none =>
  rw [entries_of_open _ _ hclose]
  have hpart := performs_behind hr ⟨[], List.forall_mem_nil _⟩ fun fields hfields =>
    property_performed hQ h hscope ih hfields
  simp only [← evalEntries_reverse_cons] at hpart
  simp only [object_of_open h hclose]
  rw [← bind_assoc]
  exact performs_parts (fun parts => evalEntries scope [] parts.reverse)
    (fun fields => .mapping (sortKeys fields)) hQ hpart (fun _ => spares_sortKeys)
    (fun _ => by rw [Expr.eval])
    (fun f parts => by rw [evalEntries_reverse_cons]; simp only [evalEntries])
    fun part rest r' hrest hshort hr' => (ih rest hrest hshort).object (part :: read) r' hr'

/-! ## Array literals -/

/-- Elements are taken over from a value. -/
lemma spreadItems_performed (hQ : Reports Q (.of stop ts) ts) {v : Option Value}
    (hv : Spares? asked v) (behind : List Lexeme) :
    (do return (← Run.ofExcept (spreadItems v), place ts behind)).Follows
      (Stands (fun items => ∀ item ∈ items, Spares asked item) ts behind) Q (spreadItems v) :=
  Stands.of_gives (Run.gives_ofExcept (fun _ => spares_spreadItems hv) fun f hf =>
    hQ.other f (isPlain_of_spreadItems hf)) behind

/-- **An element** is read and evaluated. -/
theorem element_performed (hQ : Reports Q (.of stop ts) ts) (h : us <:+ ts)
    (hexpression : IsEvaluated scope asked Q ts
      ((tokensOf ts stop broken).expression checked scope (place ts us))
      (Reader.expression (.of stop ts) inner us))
    (ih : ∀ vs, vs <:+ ts → vs.length < us.length →
      ArePerformed asked checked scope inner Q ts stop broken vs) :
    Performs (fun part => evalItems scope [part]) (fun items => ∀ item ∈ items, Spares asked item)
      Q ts ((tokensOf ts stop broken).element checked scope (place ts us))
      (Reader.item (.of stop ts) inner us) := by
  have hvalue : Performs (fun part => evalItems scope [part])
      (fun items => ∀ item ∈ items, Spares asked item) Q ts
      (do
        let (v, pos) ← (tokensOf ts stop broken).expression checked scope (place ts us)
        return ([v.getD .null], pos))
      ((Reader.expression (.of stop ts) inner us).map .value) := by
    refine (hexpression.andThen (fun v => .ok [v.getD .null]) fun v behind hv => ?_).map Item.value
      fun e => ?_
    · refine Run.follows_pure ⟨rfl, List.forall_mem_singleton.2 ?_⟩
      cases v with
      | none => exact spares_null
      | some w => exact hv w rfl
    · simp only [evalItems, ok_bind]
  rw [Tokens.element, peek_place h, pure_bind, Reader.item.eq_def]
  cases us with
  | nil => exact hvalue
  | cons t rest =>
  obtain ⟨token, offset, afterBreak, source⟩ := t
  cases token with
  | sign s =>
    cases s with
    | spread =>
      have hrest : rest <:+ ts := isSuffix_tail h
      dsimp only [kindOf, Kind.of]
      rw [next_place h, pure_bind]
      refine (((ih rest hrest (Nat.lt_succ_self _)).expression.andThen spreadItems
        fun v behind hv => ?_).map Item.spread fun e => ?_).weaken _
      · exact spreadItems_performed hQ hv behind
      · simp only [evalItems, ok_bind, List.append_nil]
        exact bind_congr fun v => bind_pure (spreadItems v)
    | _ => exact hvalue
  | _ => exact hvalue

/-- The element that was read last comes last. -/
lemma evalItems_reverse_cons (read : List Item) (part : Item) :
    evalItems scope (part :: read).reverse =
      (evalItems scope read.reverse >>= fun items =>
        evalItems scope [part] >>= fun more => .ok (items ++ more)) := by
  rw [List.reverse_cons, evalItems_append]

/-- The items of a part stand behind those that have been read. -/
lemma elements_performed (hQ : Reports Q (.of stop ts) ts) (h : us <:+ ts)
    (hexpression : IsEvaluated scope asked Q ts
      ((tokensOf ts stop broken).expression checked scope (place ts us))
      (Reader.expression (.of stop ts) inner us))
    (ih : ∀ vs, vs <:+ ts → vs.length < us.length →
      ArePerformed asked checked scope inner Q ts stop broken vs) {items : List Value}
    (hitems : ∀ item ∈ items, Spares asked item) :
    Performs (fun part => evalItems scope [part] >>= fun more => .ok (items ++ more))
      (fun items => ∀ item ∈ items, Spares asked item) Q ts
      ((tokensOf ts stop broken).element checked scope (place ts us) >>= fun a =>
        pure (items ++ a.1, a.2))
      (Reader.item (.of stop ts) inner us) :=
  (element_performed hQ h hexpression ih).andThen (fun more => .ok (items ++ more))
    fun _ _ hmore => Run.follows_pure ⟨rfl, List.forall_mem_append.2 ⟨hitems, hmore⟩⟩

/-- A comma that stands in the place of a part leaves a hole. -/
lemma gives_hole {read : List Item} {r : Run (List Value)}
    (hr : r.Gives (fun items => ∀ item ∈ items, Spares asked item) Q
      (evalItems scope read.reverse)) :
    (r >>= fun items => pure (items ++ [.null])).Gives
      (fun items => ∀ item ∈ items, Spares asked item) Q
      (evalItems scope (.hole :: read).reverse) := by
  rw [evalItems_reverse_cons]
  refine hr.bind ?_
  rintro items _ ⟨rfl, hitems⟩
  exact Run.follows_pure
    ⟨rfl, List.forall_mem_append.2 ⟨hitems, List.forall_mem_singleton.2 spares_null⟩⟩

/-- Where no bracket closes a literal, an element is read. -/
lemma items_of_open (fin : TextEnd) (read : List Item) (hopen : Reader.sign? ']' us = none)
    (hcomma : Reader.sign? ',' us = none) :
    Reader.items fin inner read us =
      readBehind fin ']' (fun parts => .array parts.reverse) (fun f => .value (.cut none f))
        (Reader.items fin inner) read (Reader.item fin inner us) := by
  rw [Reader.items, hopen, hcomma]
  cases Reader.item fin inner us <;> rfl

/-- A comma stands for an element that is left out. -/
lemma array_of_hole {t : Lexeme} {rest : List Lexeme} (h : t :: rest <:+ ts)
    (hopen : Reader.sign? ']' (t :: rest) = none) (ht : Reader.IsPunct ',' t) (items : List Value) :
    (tokensOf ts stop broken).array checked scope items (place ts (t :: rest)) =
      (tokensOf ts stop broken).array checked scope (items ++ [.null]) (place ts rest) := by
  rw [Tokens.array, eat_of_not_sign? h hopen, pure_bind]
  dsimp only
  rw [if_neg (by simp), peek_place h, pure_bind, isPunct_kindOf,
    if_pos (Reader.atSign_cons_iff.2 ht), next_place h, pure_bind, List.tail_cons]

/-- Where no bracket closes a literal, an element is evaluated. -/
lemma array_of_open (h : us <:+ ts) (hopen : Reader.sign? ']' us = none)
    (hcomma : Reader.sign? ',' us = none) (items : List Value) :
    (tokensOf ts stop broken).array checked scope items (place ts us) =
      (((tokensOf ts stop broken).element checked scope (place ts us) >>= fun a =>
        pure (items ++ a.1, a.2)) >>= fun a => do
        let found ← eat (tokensOf ts stop broken) ',' a.2
        if found.1 then (tokensOf ts stop broken).array checked scope a.1 found.2
        else return (some (.list a.1), ← expect (tokensOf ts stop broken) ']' found.2)) := by
  rw [Tokens.array, eat_of_not_sign? h hopen, pure_bind]
  dsimp only
  rw [if_neg (by simp), peek_place h, pure_bind, isPunct_kindOf,
    Reader.sign?_eq_none_iff.1 hcomma, if_neg (by simp), bind_assoc]
  rfl

/-- **Array literals** are put together as they are read. -/
theorem array_performed (hQ : Reports Q (.of stop ts) ts) (h : us <:+ ts)
    (hexpression : IsEvaluated scope asked Q ts
      ((tokensOf ts stop broken).expression checked scope (place ts us))
      (Reader.expression (.of stop ts) inner us))
    (ih : ∀ vs, vs <:+ ts → vs.length < us.length →
      ArePerformed asked checked scope inner Q ts stop broken vs) (read : List Item)
    {r : Run (List Value)}
    (hr : r.Gives (fun items => ∀ item ∈ items, Spares asked item) Q
      (evalItems scope read.reverse)) :
    IsEvaluated scope asked Q ts
      (r >>= fun items => (tokensOf ts stop broken).array checked scope items (place ts us))
      (Reader.items (.of stop ts) inner read us) := by
  cases hclose : Reader.sign? ']' us with
  | some found =>
    obtain ⟨rest, hshort⟩ := found
    obtain ⟨hrest, heat⟩ := eat_of_sign? stop broken h hclose
    rw [Reader.items, hclose]
    refine ⟨hrest, ?_⟩
    rw [Expr.eval]
    refine hr.bind ?_
    rintro items _ ⟨rfl, hitems⟩
    rw [Tokens.array, heat, pure_bind]
    exact Run.follows_pure ⟨rfl, spares?_some.2 (spares_list.2 hitems)⟩
  | none =>
  cases hcomma : Reader.sign? ',' us with
  | some found =>
    obtain ⟨rest, hshort⟩ := found
    rw [Reader.items, hclose, hcomma]
    obtain ⟨t, rfl, ht⟩ := Reader.sign?_eq_some_iff.1 hcomma
    have hlater := (ih rest (isSuffix_tail h) hshort).array (.hole :: read) _ (gives_hole hr)
    simp only [bind_assoc, pure_bind] at hlater
    simp only [array_of_hole h hclose ht]
    exact hlater.weaken _
  | none =>
  rw [items_of_open _ _ hclose hcomma]
  have hpart := performs_behind hr ⟨[], List.forall_mem_nil _⟩ fun items hitems =>
    elements_performed hQ h hexpression ih hitems
  simp only [← evalItems_reverse_cons] at hpart
  simp only [array_of_open h hclose hcomma]
  rw [← bind_assoc]
  exact performs_parts (fun parts => evalItems scope parts.reverse) .list hQ hpart
    (fun _ => spares_list.2) (fun _ => by rw [Expr.eval])
    (fun f parts => by rw [evalItems_reverse_cons]; simp only [evalItems, Expr.eval]; rfl)
    fun part rest r' hrest hshort hr' => (ih rest hrest hshort).array (part :: read) r' hr'

end CardTable.Script.Interpreter
