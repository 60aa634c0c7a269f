import CardTable.Proofs.Script.Cursor.LexicalFaults
import CardTable.Proofs.Script.Cursor.Stretches
import CardTable.Proofs.Script.Interpreter.TokenIndices

set_option autoImplicit false

/-!
# Runs that follow what is read

A reader builds the tree of an expression, and the tree is evaluated; a run at the tokens does both
at once. It follows the reader if it ends as the evaluation of the tree does: with the same value,
at the index behind the tokens of the tree, or with the same failure. Where the reader cuts the tree
off, the run ends with the failure of the cut, if no other one comes before.

What holds of all failures that are reported is carried along: it is asked of the signs and the end
of the text where they are unexpected, and of all other failures.

## Main definitions

* `CardTable.Script.Run.Follows` — a run that ends as a function does.
* `CardTable.Script.Reports` — what is asked of the failures that are reported.
* `CardTable.Script.Interpreter.Performs` — a run that does what a reading says.
* `CardTable.Script.Interpreter.ArePerformed` — all runs at one place do what the readers say.

## Main results

* `CardTable.Script.Run.Follows.bind` — a run follows a function if its steps do.
* `CardTable.Script.Interpreter.Performs.andThen`, `CardTable.Script.Interpreter.performs_behind` —
  what goes on behind a reading, and in front of one.
-/

namespace CardTable.Script

namespace Run

variable {α α' β β' : Type} {R : α → β → Prop} {R' : α' → β' → Prop} {Q : Failure → Prop}
  {r : Run α} {x : Except Failure β}

/-- The run ends as the function does, with a result that stands in the relation `R` to that of the
function, or where the function fails, with a failure that satisfies `Q`. -/
def Follows (R : α → β → Prop) (Q : Failure → Prop) (r : Run α) : Except Failure β → Prop
  | .ok b => ∃ a, r = pure a ∧ R a b
  | .error f => r = halt f ∧ Q f

/-- A run that follows a function with the same result is the run of that function. -/
lemma Follows.eq_ofExcept {r : Run β} (h : r.Follows (fun a b => a = b) Q x) :
    r = ofExcept x := by
  cases x with
  | ok b =>
    obtain ⟨_, rfl, rfl⟩ := h
    rfl
  | error f => exact h.1

/-- **Step by step**: a run follows a function if its steps do. -/
theorem Follows.bind {k : α → Run α'} {f : β → Except Failure β'} (h : r.Follows R Q x)
    (hk : ∀ a b, R a b → (k a).Follows R' Q (f b)) : (r >>= k).Follows R' Q (x >>= f) := by
  cases x with
  | ok b =>
    obtain ⟨a, rfl, ha⟩ := h
    exact hk a b ha
  | error f =>
    obtain ⟨rfl, hf⟩ := h
    exact ⟨halt_bind f k, hf⟩

/-- A run of the last step of which a function changes the result. -/
lemma Follows.map {r : Run β} (h : r.Follows (fun a b => a = b) Q x) (f : β → β') :
    (do return f (← r)).Follows (fun a b => a = b) Q (x.map f) := by
  cases x with
  | ok b =>
    obtain ⟨_, rfl, rfl⟩ := h
    exact ⟨_, rfl, rfl⟩
  | error e =>
    obtain ⟨rfl, he⟩ := h
    exact ⟨halt_bind e _, he⟩

/-- A run whose first step ends with a failure. -/
lemma Follows.stop {R' : α' → β → Prop} (h : r.Follows (fun _ _ => False) Q x) (k : α → Run α') :
    (r >>= k).Follows R' Q x := by
  cases x with
  | ok b =>
    obtain ⟨_, _, ⟨⟩⟩ := h
  | error f =>
    obtain ⟨rfl, hf⟩ := h
    exact ⟨halt_bind f k, hf⟩

/-- A run with a result follows an answer to which the result is related. -/
lemma follows_pure {a : α} {b : β} (h : R a b) : Follows R Q (pure a) (.ok b) :=
  ⟨a, rfl, h⟩

/-- A run that stops follows a failure, as far as this may be reported. -/
lemma follows_halt {f : Failure} (h : Q f) : Follows R Q (halt f) (.error f) :=
  ⟨rfl, h⟩

/-- A run gives what a function gives, and `S` holds of it. -/
abbrev Gives (S : β → Prop) (Q : Failure → Prop) : Run β → Except Failure β → Prop :=
  Follows (fun a b => a = b ∧ S b) Q

/-- A function inside a run. -/
lemma gives_ofExcept {S : β → Prop} (hS : ∀ b, x = .ok b → S b) (hQ : ∀ f, x = .error f → Q f) :
    (ofExcept x).Gives S Q x := by
  cases x with
  | ok b => exact ⟨b, rfl, rfl, hS b rfl⟩
  | error f => exact ⟨rfl, hQ f rfl⟩

end Run

/-! ## Breaches that are reported -/

/-- Whether a failure is neither the breach of an unexpected token nor an overflow. -/
def Failure.isPlain : Failure → Bool
  | .fault f => !f.problem.isUnexpected
  | .overflow => false
  | _ => true

/-- What is asked of the reported failures: it holds of an unexpected sign of the tokens `ts` where
it stands, of their end at the offset that is reported for it, and of all other failures but an
overflow. -/
structure Reports (Q : Failure → Prop) (fin : TextEnd) (ts : List Lexeme) : Prop where
  sign : ∀ t ∈ ts, ∀ s, t.token = .sign s → Q (.fault ⟨t.offset, .unexpected (some s)⟩)
  finish : Q (.fault ⟨fin.last, .unexpected none⟩)
  other : ∀ f, f.isPlain = true → Q f

/-- All faults that are no unexpected token may be reported. -/
lemma Reports.fault {Q : Failure → Prop} {fin : TextEnd} {ts : List Lexeme}
    (hQ : Reports Q fin ts) (offset : Nat) {problem : Problem}
    (h : problem.isUnexpected = false) : Q (.fault ⟨offset, problem⟩) :=
  hQ.other (.fault ⟨offset, problem⟩) (by rw [Failure.isPlain, h, Bool.not_false])

/-- A sign that is missing may be reported. -/
lemma Reports.expected {Q : Failure → Prop} {fin : TextEnd} {ts us : List Lexeme} {c : Char}
    {f : Fault} (hQ : Reports Q fin ts) (h : Reader.expectSign fin c us = .error f) :
    Q (.fault f) := by
  unfold Reader.expectSign at h
  split at h
  · cases h
  · obtain rfl := Except.error.inj h
    exact hQ.fault _ rfl

/-- What is behind an expected sign is an end of the tokens. -/
lemma isSuffix_of_expectSign {fin : TextEnd} {ts us rest : List Lexeme} {c : Char}
    {hshort : rest.length < us.length} (h : Reader.expectSign fin c us = .ok ⟨rest, hshort⟩)
    (hus : us <:+ ts) : rest <:+ ts := by
  obtain ⟨t, rfl, -⟩ := Reader.exists_of_expectSign h
  exact (List.suffix_cons t rest).trans hus

/-- An access does not report a breach. -/
lemma isPlain_of_access {optional : Bool} {key : String} {reached : Reached} {f : Failure}
    (h : access optional key reached = .error f) : f.isPlain = true := by
  unfold access at h
  split at h
  · cases h
  split at h
  · cases h
  · unfold member at h
    split at h <;> try split at h
    all_goals cases h <;> rfl

/-- A name that is not found is no overflow. -/
lemma isPlain_of_lookup {scope : Scope} {w : String} {f : Failure}
    (h : lookup scope w = .error f) : f.isPlain = true := by
  unfold lookup at h
  split at h <;> cases h
  rfl

/-- A value whose elements cannot be taken over is no overflow. -/
lemma isPlain_of_spreadItems {v : Option Value} {f : Failure}
    (h : spreadItems v = .error f) : f.isPlain = true := by
  unfold spreadItems at h
  split at h <;> cases h
  rfl

namespace Interpreter

open Cursor (Kind Tok)

/-- The result and index of a run, against the value of the tree that is read. -/
def Stands {α : Type} (S : α → Prop) (ts behind : List Lexeme) (a : α × Nat) (v : α) : Prop :=
  a = (v, place ts behind) ∧ S v

/-- The run at the tokens does what the reading says. -/
abbrev Performs {α β : Type} {n : Nat} (value : β → Except Failure α) (S : α → Prop)
    (Q : Failure → Prop) (ts : List Lexeme) (r : Run (α × Nat)) : Reading β n → Prop :=
  Reading.Holds
    (fun tree behind => behind <:+ ts ∧ r.Follows (Stands S ts behind) Q (value tree))
    (fun tree => r.Follows (fun _ _ => False) Q (value tree))

section Readings

variable {ts : List Lexeme} {stop : Nat} {broken : Bool} {scope : Scope} {Q : Failure → Prop}
  {n : Nat}

/-- A run that follows an expression cut short performs its reading. -/
lemma performs_cut {α β : Type} {value : β → Except Failure α} {S : α → Prop}
    {r : Run (α × Nat)} {tree : β} (h : r.Follows (fun _ _ => False) Q (value tree)) :
    Performs value S Q ts r (.cut tree : Reading β n) :=
  h

/-- A breach that stops the reading is reported by the run. -/
lemma performs_fault {α β : Type} {value : β → Except Failure α} {S : α → Prop}
    {r : Run (α × Nat)} {tree : β} {f : Fault} (hr : r = Run.fail (.fault f))
    (htree : value tree = .error (.fault f)) (hf : Q (.fault f)) :
    Performs value S Q ts r (.cut tree : Reading β n) := by
  refine performs_cut ?_
  rw [hr, htree]
  exact Run.follows_halt hf

/-- A tree with a value is read to its end by the run that gives it. -/
lemma performs_value {α β : Type} {value : β → Except Failure α} {S : α → Prop} {tree : β}
    {behind : List Lexeme} {v : α} {hshort : behind.length < n} (hbehind : behind <:+ ts)
    (htree : value tree = .ok v) (hv : S v) :
    Performs value S Q ts (pure (v, place ts behind))
      (.whole tree behind hshort : Reading β n) := by
  refine ⟨hbehind, ?_⟩
  rw [htree]
  exact Run.follows_pure ⟨rfl, hv⟩

/-- An expression that is cut short is evaluated as far as it goes. -/
lemma eval_cut (e : Expr) (f : Fault) :
    (Expr.cut (some e) f).eval scope = (e.eval scope >>= fun _ => .error (.fault f)) := by
  rw [Expr.eval]

/-- What goes on with the result of a reading. -/
theorem Performs.andThen {α α' β : Type} {value : β → Except Failure α} {S : α → Prop}
    {S' : α' → Prop} {r : Run (α × Nat)} {reading : Reading β n}
    (hr : Performs value S Q ts r reading) {k : α × Nat → Run (α' × Nat)}
    (g : α → Except Failure α')
    (hk : ∀ v behind, S v → (k (v, place ts behind)).Follows (Stands S' ts behind) Q (g v)) :
    Performs (fun tree => value tree >>= g) S' Q ts (r >>= k) reading := by
  refine Reading.Holds.imp hr ?_ ?_
  · rintro tree behind ⟨hbehind, hrun⟩
    refine ⟨hbehind, hrun.bind ?_⟩
    rintro _ v ⟨rfl, hv⟩
    exact hk v behind hv
  · exact fun tree hrun => hrun.bind fun _ _ => False.elim

/-- The same run performs the reading of a tree that holds the tree of a reading. -/
lemma Performs.map {α β β' : Type} {value : β → Except Failure α} {value' : β' → Except Failure α}
    {S : α → Prop} {r : Run (α × Nat)} {reading : Reading β n}
    (hr : Performs value S Q ts r reading) (f : β → β')
    (hf : ∀ tree, value' (f tree) = value tree) : Performs value' S Q ts r (reading.map f) := by
  refine Reading.Holds.map hr ?_ ?_
  · rintro tree behind ⟨hbehind, hrun⟩
    exact ⟨hbehind, (hf tree).symm ▸ hrun⟩
  · exact fun tree hrun => show Run.Follows _ Q r (value' (f tree)) from (hf tree).symm ▸ hrun

/-- A run that ends at a known place goes on there. -/
lemma bind_place {β γ : Type} {S : β → Prop} {behind : List Lexeme} {r : Run (β × Nat)}
    {x : Except Failure β} (hr : r.Follows (Stands S ts behind) Q x) (k : β × Nat → Run γ) :
    (r >>= k) = (r >>= fun a => pure a.1) >>= fun v => k (v, place ts behind) := by
  cases x with
  | ok v =>
    obtain ⟨_, rfl, rfl, -⟩ := hr
    rfl
  | error f =>
    obtain ⟨rfl, -⟩ := hr
    simp only [Run.halt_bind]

/-- A run without its position gives what it gave with it. -/
lemma gives_first {β : Type} {S : β → Prop} {behind : List Lexeme} {r : Run (β × Nat)}
    {x : Except Failure β} (hr : r.Follows (Stands S ts behind) Q x) :
    (r >>= fun a => pure a.1).Gives S Q x := by
  rw [← bind_pure x]
  refine hr.bind ?_
  rintro _ v ⟨rfl, hv⟩
  exact Run.follows_pure ⟨rfl, hv⟩

/-- What is given at a place stands there. -/
lemma Stands.of_gives {α : Type} {S : α → Prop} {r : Run α} {x : Except Failure α}
    (hr : r.Gives S Q x) (behind : List Lexeme) :
    (do return (← r, place ts behind)).Follows (Stands S ts behind) Q x := by
  cases x with
  | ok v =>
    obtain ⟨_, rfl, rfl, hv⟩ := hr
    exact ⟨_, rfl, rfl, hv⟩
  | error f =>
    obtain ⟨rfl, hf⟩ := hr
    exact ⟨Run.halt_bind f _, hf⟩

/-- What goes on behind a run performs a reading if it does so for each of its results. -/
theorem performs_behind {α β γ : Type} {S₀ : γ → Prop} {S : α → Prop} {r : Run γ}
    {x : Except Failure γ} {value : γ → β → Except Failure α} {k : γ → Run (α × Nat)}
    {reading : Reading β n} (hr : r.Gives S₀ Q x) (hS₀ : ∃ c, S₀ c)
    (hk : ∀ c, S₀ c → Performs (value c) S Q ts (k c) reading) :
    Performs (fun tree => x >>= fun c => value c tree) S Q ts (r >>= k) reading := by
  cases reading with
  | whole tree behind _ =>
    -- The run may fail, but the tokens behind the tree are those of the text all the same.
    obtain ⟨c, hc⟩ := hS₀
    refine ⟨(hk c hc).1, hr.bind ?_⟩
    rintro c _ ⟨rfl, hc⟩
    exact (hk c hc).2
  | cut tree =>
    refine hr.bind ?_
    rintro c _ ⟨rfl, hc⟩
    exact hk c hc

/-- **A closing bracket** behind what a run gives. -/
theorem performs_closed {α α' β : Type} {value : β → Except Failure α'} {S : α → Prop}
    {S' : α' → Prop} {r : Run α} {x : Except Failure α} {behind : List Lexeme} {tree : β}
    {cut : Fault → β} {g : α → α'} (hQ : Reports Q (.of stop ts) ts) (hbehind : behind <:+ ts)
    (hr : r.Gives S Q x) (c : Char) (hg : ∀ v, S v → S' (g v))
    (htree : value tree = x >>= fun v => .ok (g v))
    (hcut : ∀ f, value (cut f) = x >>= fun _ => .error (.fault f)) (hn : behind.length < n) :
    Performs value S' Q ts
      (r >>= fun v => do return (g v, ← expect (tokensOf ts stop broken) c (place ts behind)))
      (match Reader.expectSign (.of stop ts) c behind with
        | .error f => .cut (cut f)
        | .ok ⟨rest, h⟩ => .whole tree rest (Nat.lt_trans h hn) : Reading β n) := by
  have hexpect := expect_place stop broken hbehind c
  split
  · next f hclose =>
    refine performs_cut ?_
    rw [hcut]
    refine hr.bind ?_
    rintro v _ ⟨rfl, -⟩
    rw [hexpect, hclose]
    exact Run.follows_halt (hQ.expected hclose)
  · next rest h hclose =>
    refine ⟨isSuffix_of_expectSign hclose hbehind, ?_⟩
    rw [htree]
    refine hr.bind ?_
    rintro v _ ⟨rfl, hv⟩
    rw [hexpect, hclose]
    exact Run.follows_pure ⟨rfl, hg v hv⟩

end Readings

/-! ## All runs at one place -/

variable {n : Nat}

/-- The same of expressions. -/
abbrev IsEvaluated (scope : Scope) (asked : Bool) (Q : Failure → Prop) (ts : List Lexeme)
    (r : Run (Option Value × Nat)) : Reading Expr n → Prop :=
  Performs (Expr.eval scope) (Spares? asked) Q ts r

/-- The key that an expression in brackets stands for. -/
def keyOf (scope : Scope) (e : Expr) : Except Failure String :=
  propertyKey <$> e.eval scope

/-- What the accesses `read`, the last one first, lead to. -/
def reachedBy (scope : Scope) (base : Expr) (read : List Link) : Except Failure Reached :=
  base.eval scope >>= fun v => evalLinks scope (some v) read.reverse

/-- What is asked so that negations are followed: no value is the least whole number, or a checked
run that stops at an overflow may do so. -/
def SettlesOverflow (asked checked : Bool) (Q : Failure → Prop) : Prop :=
  asked = true ∨ checked = true ∧ Q .overflow

/-- The runs at `us` do what the readers say. A literal or a chain of accesses is gone on with by
any run that has done so much as has been read. -/
structure ArePerformed (asked checked : Bool) (scope : Scope) (inner : Substitution → Expr)
    (Q : Failure → Prop) (ts : List Lexeme) (stop : Nat) (broken : Bool) (us : List Lexeme) :
    Prop where
  expression : IsEvaluated scope asked Q ts
    ((tokensOf ts stop broken).expression checked scope (place ts us))
    (Reader.expression (.of stop ts) inner us)
  unary : IsEvaluated scope asked Q ts
    ((tokensOf ts stop broken).unary checked scope (place ts us))
    (Reader.unary (.of stop ts) inner us)
  accesses : ∀ base read r, r.Gives (fun reached => ∀ v ∈ reached, Spares? asked v) Q
    (reachedBy scope base read) → IsEvaluated scope asked Q ts
      (r >>= fun reached => (tokensOf ts stop broken).accesses checked scope reached (place ts us))
      (Reader.links (.of stop ts) inner base read us)
  index : Performs (keyOf scope) (fun _ => True) Q ts
    ((tokensOf ts stop broken).index checked scope (place ts us))
    (Reader.index (.of stop ts) inner us)
  propertyValue : ∀ shorthand : Option String,
    shorthand = none ∨ ¬(atSign ',' us ∨ atSign '\x7d' us) →
    IsEvaluated scope asked Q ts
      ((tokensOf ts stop broken).propertyValue checked scope shorthand (place ts us))
      (Reader.propertyValue (.of stop ts) inner us)
  object : ∀ read r, r.Gives (fun fields => ∀ field ∈ fields, Spares asked field.2) Q
    (evalEntries scope [] read.reverse) → IsEvaluated scope asked Q ts
      (r >>= fun fields => (tokensOf ts stop broken).object checked scope fields (place ts us))
      (Reader.entries (.of stop ts) inner read us)
  array : ∀ read r, r.Gives (fun items => ∀ item ∈ items, Spares asked item) Q
    (evalItems scope read.reverse) → IsEvaluated scope asked Q ts
      (r >>= fun items => (tokensOf ts stop broken).array checked scope items (place ts us))
      (Reader.items (.of stop ts) inner read us)

end Interpreter

end CardTable.Script
