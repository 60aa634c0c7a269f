import CardTable.Proofs.Script.Grammar.Rules

set_option autoImplicit false

/-!
# Readers follow the grammar

Each reader of expressions gives a whole tree that the rules give, or a tree that was cut short and
has no value. A reader is sound on a list if the readers that it calls on shorter lists are.

## Main definitions

* `CardTable.Script.Reading.Holds` — what holds of a whole tree, and of one that was cut short.
* `CardTable.Script.Reader.AreSound` — the readers are sound on a token list.

## Main results

* `CardTable.Script.Reader.areSound` — the readers are sound on every token list.
* `CardTable.Script.Reader.exists_reads_of_eval` — an expression with a value was read to its end.
-/

namespace CardTable.Script

namespace Reading

variable {α β : Type} {n m : Nat} {W W' : α → List Lexeme → Prop} {C C' : α → Prop}

/-- A reading that is whole as `W` says, or cut short as `C` says. -/
def Holds (W : α → List Lexeme → Prop) (C : α → Prop) : Reading α n → Prop
  | .whole tree behind _ => W tree behind
  | .cut tree => C tree

/-- What holds of a reading holds of it for a longer token list. -/
lemma Holds.weaken {r : Reading α n} (hr : r.Holds W C) (h : n ≤ m) :
    (r.weaken h).Holds W C := by
  cases r <;> exact hr

/-- What holds of a reading holds of it inside a larger tree. -/
lemma Holds.map {W' : β → List Lexeme → Prop} {C' : β → Prop} {r : Reading α n} {f : α → β}
    (hr : r.Holds W C) (hwhole : ∀ tree behind, W tree behind → W' (f tree) behind)
    (hcut : ∀ tree, C tree → C' (f tree)) : (r.map f).Holds W' C' := by
  cases r with
  | whole tree behind _ => exact hwhole tree behind hr
  | cut tree => exact hcut tree hr

/-- What holds of a reading implies what follows from it. -/
lemma Holds.imp {r : Reading α n} (hr : r.Holds W C)
    (hwhole : ∀ tree behind, W tree behind → W' tree behind)
    (hcut : ∀ tree, C tree → C' tree) : r.Holds W' C' := by
  cases r with
  | whole tree behind _ => exact hwhole tree behind hr
  | cut tree => exact hcut tree hr

end Reading

namespace Reader

section Soundness

variable {fin : TextEnd} {inner : Substitution → Expr} {n : Nat} {ts : List Lexeme}

/-- A whole expression is given by the rules, and one that was cut short has no value. -/
abbrev IsSound (inner : Substitution → Expr) (part : Part) (ts : List Lexeme) :
    Reading Expr n → Prop :=
  Reading.Holds (fun e us => Reads inner part ts (.expr e) us) Expr.Fails

/-- The same of accesses, where `base` and the accesses `read` have been read. -/
abbrev IsLinksSound (inner : Substitution → Expr) (base : Expr) (read : List Link)
    (ts : List Lexeme) : Reading Expr n → Prop :=
  Reading.Holds (fun e us => ∃ links, e = linked base (read.reverse ++ links) ∧
    Reads inner .links ts (.links links) us) Expr.Fails

/-- The same of the parts of an object literal, of which `read` have been read. -/
abbrev IsEntriesSound (inner : Substitution → Expr) (read : List Entry) (ts : List Lexeme) :
    Reading Expr n → Prop :=
  Reading.Holds (fun e us => ∃ parts, e = .object (read.reverse ++ parts) ∧
    Reads inner .entries ts (.entries parts) us) Expr.Fails

/-- The same of the parts of an array literal, of which `read` have been read. -/
abbrev IsItemsSound (inner : Substitution → Expr) (read : List Item) (ts : List Lexeme) :
    Reading Expr n → Prop :=
  Reading.Holds (fun e us => ∃ parts, e = .array (read.reverse ++ parts) ∧
    Reads inner .items ts (.items parts) us) Expr.Fails

/-- The readers that are called on shorter lists are sound on `ts`. -/
structure AreSound (fin : TextEnd) (inner : Substitution → Expr) (ts : List Lexeme) : Prop where
  expression : IsSound inner .expression ts (expression fin inner ts)
  unary : IsSound inner .unary ts (unary fin inner ts)
  links : ∀ base read, IsLinksSound inner base read ts (links fin inner base read ts)
  index : IsSound inner .index ts (index fin inner ts)
  propertyValue : IsSound inner .propertyValue ts (propertyValue fin inner ts)
  entries : ∀ read, IsEntriesSound inner read ts (entries fin inner read ts)
  items : ∀ read, IsItemsSound inner read ts (items fin inner read ts)

variable (ih : ∀ us : List Lexeme, us.length < ts.length → AreSound fin inner us)

/-- One access more has been read. -/
lemma IsLinksSound.step {base : Expr} {read : List Link} {link : Link} {us : List Lexeme}
    {r : Reading Expr n} (hr : IsLinksSound inner base (link :: read) us r)
    (hstep : ∀ links vs, Reads inner .links us (.links links) vs →
      Reads inner .links ts (.links (link :: links)) vs) :
    IsLinksSound inner base read ts r := by
  refine Reading.Holds.imp hr ?_ fun _ => id
  rintro _ vs ⟨links, rfl, hlinks⟩
  exact ⟨link :: links, by simp, hstep links vs hlinks⟩

/-- No access more has been read. -/
lemma linksSound_of_end {base : Expr} {read : List Link} (hend : endsLinks ts = true)
    (h : ts.length < n) : IsLinksSound inner base read ts
      (Reading.whole (chained base read) ts h : Reading Expr n) :=
  ⟨[], by rw [chained_eq, List.append_nil], .linksEnd hend⟩

include ih in
/-- The reader of accesses is sound. -/
lemma links_sound (base : Expr) (read : List Link) :
    IsLinksSound inner base read ts (links fin inner base read ts) := by
  cases ts with
  | nil =>
    unfold links
    exact linksSound_of_end rfl _
  | cons t rest =>
  have hrest := ih rest (Nat.lt_succ_self _)
  rw [links.eq_def]
  dsimp only
  split
  · next ht =>
    split
    · next rest =>
      have hlater := (ih rest (by simp only [List.length_cons]; omega)).links base
      exact IsLinksSound.step ((hlater _).weaken _) fun _ _ => .named false ht rfl
    · exact Expr.fails_cut _ _
  · next ht =>
    split
    · next rest =>
      have hlater := (ih rest (by simp only [List.length_cons]; omega)).links base
      exact IsLinksSound.step ((hlater _).weaken _) fun _ _ => .named true ht rfl
    · next rest =>
      have hindex := (ih rest (by simp only [List.length_cons]; omega)).index
      split
      · next hcut =>
        rw [hcut] at hindex
        exact fails_chained hindex _ _ _
      · next behind h hwhole =>
        rw [hwhole] at hindex
        have hlater := (ih behind (by simp only [List.length_cons]; omega)).links base
        exact IsLinksSound.step ((hlater _).weaken _) fun _ _ => .optionalComputed ht rfl hindex
    · exact Expr.fails_cut _ _
  · next ht =>
    have hindex := hrest.index
    split
    · next hcut =>
      rw [hcut] at hindex
      exact fails_chained hindex _ _ _
    · next behind h hwhole =>
      rw [hwhole] at hindex
      have hlater := (ih behind (Nat.lt_succ_of_lt h)).links base
      exact IsLinksSound.step ((hlater _).weaken _) fun _ _ => .computed ht hindex
  · next ht =>
    split
    · next hnext => exact linksSound_of_end (by simp only [endsLinks, ht, hnext]) _
    · next hnext =>
      refine Reading.Holds.imp ((hrest.links base read).weaken _) ?_ fun _ => id
      rintro _ us ⟨links, rfl, hlinks⟩
      exact ⟨links, rfl, .nonNull ht (by simpa using hnext) hlinks⟩
  · exact Expr.fails_cut _ _
  · next h1 h2 h3 h4 h5 =>
    refine linksSound_of_end ?_ _
    unfold endsLinks
    split <;> simp_all

include ih in
/-- The reader of literals, names and expressions in brackets is sound. -/
lemma primary_sound : IsSound inner .primary ts (primary fin inner ts) := by
  cases ts with
  | nil =>
    rw [primary]
    exact Expr.fails_cut _ _
  | cons t rest =>
  have hrest := ih rest (Nat.lt_succ_self _)
  rw [primary]
  split
  · next ht => exact .atom (by rw [ht]; rfl)
  · next ht => exact .atom (by rw [ht]; rfl)
  · next ht => exact .atom (by rw [ht]; rfl)
  · next ht =>
    refine ((hrest.entries []).imp ?_ fun _ => id).weaken _
    rintro _ us ⟨parts, rfl, hparts⟩
    exact .object ht hparts
  · next ht =>
    refine ((hrest.items []).imp ?_ fun _ => id).weaken _
    rintro _ us ⟨parts, rfl, hparts⟩
    exact .array ht hparts
  · next ht =>
    have hexpression := hrest.expression
    split
    · next hcut => rwa [hcut] at hexpression
    · next hwhole =>
      rw [hwhole] at hexpression
      split
      · exact Expr.fails_cut _ _
      · next hsign =>
        obtain ⟨u, rfl, hu⟩ := exists_of_expectSign hsign
        exact .bracketed ht hexpression hu
  · exact Expr.fails_cut _ _
  · next w ht =>
    split
    · next hconstant => exact .atom (by rw [ht]; simp [atom?, hconstant])
    · next hconstant =>
      split
      · exact Expr.fails_cut _ _
      split
      · exact Expr.fails_cut _ _
      · next hsupported hcall => exact .name ht hconstant hsupported (by simpa using hcall)

include ih in
/-- The reader of expressions behind their signs is sound. -/
lemma unary_sound (hprimary : IsSound inner .primary ts (primary fin inner ts)) :
    IsSound inner .unary ts (unary fin inner ts) := by
  rw [unary]
  split
  · next rest h hminus =>
    obtain ⟨t, rfl, ht⟩ := sign?_eq_some_iff.1 hminus
    exact ((ih rest h).unary.map (fun _ _ => .signed true ht) fun _ h => h.signed true).weaken _
  split
  · next rest h hplus =>
    obtain ⟨t, rfl, ht⟩ := sign?_eq_some_iff.1 hplus
    exact ((ih rest h).unary.map (fun _ _ => .signed false ht) fun _ h => h.signed false).weaken _
  split
  · next hcut => rwa [hcut] at hprimary
  · next e behind h hwhole =>
    rw [hwhole] at hprimary
    refine (((ih behind h).links e []).imp ?_ fun _ => id).weaken _
    rintro _ us ⟨links, rfl, hlinks⟩
    exact .plain hprimary hlinks

/-- The reader of expressions is sound. -/
lemma sound_of_unary (hunary : IsSound inner .unary ts (unary fin inner ts)) :
    IsSound inner .expression ts (expression fin inner ts) := by
  rw [expression]
  split
  · next hcut => rwa [hcut] at hunary
  · next hwhole =>
    rw [hwhole] at hunary
    dsimp only
    split
    · exact Expr.fails_cut _ _
    split
    · exact Expr.fails_cut _ _
    · next hend => exact .expression hunary (find?_operatorSigns_eq_none_iff.1 hend)

/-- The reader of keys in brackets is sound. -/
lemma index_sound (hexpression : IsSound inner .expression ts (expression fin inner ts)) :
    IsSound inner .index ts (index fin inner ts) := by
  rw [index]
  split
  · next hcut => rwa [hcut] at hexpression
  · next hwhole =>
    rw [hwhole] at hexpression
    split
    · exact Expr.fails_cut _ _
    · next hsign =>
      obtain ⟨t, rfl, ht⟩ := exists_of_expectSign hsign
      exact .index hexpression ht

include ih in
/-- The reader of the value behind a property name is sound. -/
lemma propertyValue_sound : IsSound inner .propertyValue ts (propertyValue fin inner ts) := by
  rw [propertyValue]
  split
  · next rest h hcolon =>
    obtain ⟨t, rfl, ht⟩ := sign?_eq_some_iff.1 hcolon
    exact ((ih rest h).expression.imp (fun _ _ => .propertyValue ht) fun _ => id).weaken _
  · exact Expr.fails_cut _ _

/-- A property without a value has none. -/
lemma fails_property {e : Expr} (he : e.Fails) (key : String) : (Entry.property key e).Fails := by
  intro scope fields rest v h
  simp only [evalEntries, bind_eq_ok_iff] at h
  obtain ⟨_, h, _⟩ := h
  exact he _ _ h

/-- A property without a name or without a value has none. -/
lemma fails_computed {key e : Expr} (h : key.Fails ∨ e.Fails) : (Entry.computed key e).Fails := by
  intro scope fields rest v hv
  simp only [evalEntries, bind_eq_ok_iff] at hv
  obtain ⟨_, hkey, _, he, _⟩ := hv
  rcases h with h | h
  · exact h _ _ hkey
  · exact h _ _ he

include ih in
/-- The reader of one part of an object literal is sound. -/
lemma entry_sound : Reading.Holds (fun part us => Reads inner .entry ts (.entry part) us)
    Entry.Fails (entry fin inner ts) := by
  have hfault : ∀ f : Fault, (Entry.cut f).Fails := fun f scope fields rest v h => by
    simp [evalEntries] at h
  cases ts with
  | nil =>
    rw [entry]
    exact hfault _
  | cons t rest =>
  have hrest := ih rest (Nat.lt_succ_self _)
  have hproperty : ∀ key, literalKey? t.token = some key →
      Reading.Holds (fun part us => Reads inner .entry (t :: rest) (.entry part) us) Entry.Fails
        (((propertyValue fin inner rest).map (.property key)).weaken (Nat.le_succ _)) :=
    fun key hkey => (hrest.propertyValue.map (fun _ _ => .property hkey)
      fun _ h => fails_property h key).weaken _
  rw [entry]
  split
  · next ht =>
    refine (hrest.expression.map (fun _ _ => .spreadEntry ht) ?_).weaken _
    intro e he scope fields rest v h
    simp only [evalEntries, bind_eq_ok_iff] at h
    obtain ⟨_, h, _⟩ := h
    exact he _ _ h
  · next ht =>
    split
    · next hnext => exact .shorthand ht hnext
    · exact hproperty _ (by rw [ht]; rfl)
  · next ht => exact hproperty _ (by rw [ht]; rfl)
  · next ht => exact hproperty _ (by rw [ht]; rfl)
  · next ht =>
    have hindex := hrest.index
    split
    · next hcut =>
      rw [hcut] at hindex
      exact fails_computed (.inl hindex)
    · next behind h hwhole =>
      rw [hwhole] at hindex
      exact ((ih behind (Nat.lt_succ_of_lt h)).propertyValue.map
        (fun _ _ => .computedProperty ht hindex) fun _ h => fails_computed (.inr h)).weaken _
  · exact hfault _

include ih in
/-- The reader of the parts of an object literal is sound. -/
lemma entries_sound (read : List Entry) :
    IsEntriesSound inner read ts (entries fin inner read ts) := by
  rw [entries]
  split
  · next hclose =>
    obtain ⟨t, rfl, ht⟩ := sign?_eq_some_iff.1 hclose
    exact ⟨[], by rw [List.append_nil], .noEntry ht⟩
  have hentry := entry_sound ih
  split
  · next hcut =>
    rw [hcut] at hentry
    rw [List.reverse_cons]
    exact fails_object hentry _ []
  · next part behind hpart hwhole =>
    rw [hwhole] at hentry
    split
    · next rest h hcomma =>
      obtain ⟨t, rfl, ht⟩ := sign?_eq_some_iff.1 hcomma
      refine Reading.Holds.imp (((ih rest (by omega)).entries _).weaken _) ?_ fun _ => id
      rintro _ us ⟨parts, rfl, hparts⟩
      exact ⟨part :: parts, by simp, .moreEntries hentry ht hparts⟩
    · split
      · rw [List.reverse_cons]
        refine fails_object (fun scope fields rest v h => ?_) _ []
        simp [evalEntries] at h
      · next hclose =>
        obtain ⟨t, rfl, ht⟩ := exists_of_expectSign hclose
        exact ⟨[part], by simp, .lastEntry hentry ht⟩

include ih in
/-- The reader of one part of an array literal is sound. -/
lemma item_sound (hexpression : IsSound inner .expression ts (expression fin inner ts)) :
    Reading.Holds (fun part us => Reads inner .item ts (.item part) us)
      Item.Fails (item fin inner ts) := by
  rw [item.eq_def]
  split
  · next rest =>
    refine ((ih rest (Nat.lt_succ_self _)).expression.map (fun _ _ => .spreadItem rfl) ?_).weaken _
    intro e he scope rest v h
    simp only [evalItems, bind_eq_ok_iff] at h
    obtain ⟨_, h, _⟩ := h
    exact he _ _ h
  · refine hexpression.map (fun _ _ => .valueItem) ?_
    intro e he scope rest v h
    simp only [evalItems, bind_eq_ok_iff] at h
    obtain ⟨_, h, _⟩ := h
    exact he _ _ h

include ih in
/-- The reader of the parts of an array literal is sound. -/
lemma items_sound (hexpression : IsSound inner .expression ts (expression fin inner ts))
    (read : List Item) : IsItemsSound inner read ts (items fin inner read ts) := by
  rw [items]
  split
  · next hclose =>
    obtain ⟨t, rfl, ht⟩ := sign?_eq_some_iff.1 hclose
    exact ⟨[], by rw [List.append_nil], .noItem ht⟩
  · next rest h _ hcomma =>
    obtain ⟨t, rfl, ht⟩ := sign?_eq_some_iff.1 hcomma
    refine Reading.Holds.imp (((ih rest h).items _).weaken _) ?_ fun _ => id
    rintro _ us ⟨parts, rfl, hparts⟩
    exact ⟨.hole :: parts, by simp, .hole ht hparts⟩
  have hitem := item_sound ih hexpression
  split
  · next hcut =>
    rw [hcut] at hitem
    rw [List.reverse_cons]
    exact fails_array hitem _ []
  · next part behind hpart hwhole =>
    rw [hwhole] at hitem
    split
    · next rest h hcomma =>
      obtain ⟨t, rfl, ht⟩ := sign?_eq_some_iff.1 hcomma
      refine Reading.Holds.imp (((ih rest (by omega)).items _).weaken _) ?_ fun _ => id
      rintro _ us ⟨parts, rfl, hparts⟩
      exact ⟨part :: parts, by simp, .moreItems hitem ht hparts⟩
    · split
      · rw [List.reverse_cons]
        refine fails_array (fun scope rest v h => ?_) _ []
        simp only [evalItems, bind_eq_ok_iff] at h
        obtain ⟨_, h, _⟩ := h
        exact Expr.fails_cut _ _ _ _ h
      · next hclose =>
        obtain ⟨t, rfl, ht⟩ := exists_of_expectSign hclose
        exact ⟨[part], by simp, .lastItem hitem ht⟩

variable (fin inner)

/-- The readers are sound on every token list.

**Proof sketch.** Strong induction on the number of tokens. Operands, entries and items are read
from fewer tokens, apart from the parts that begin a larger one (the primary of an operand, the
operand of an expression), which are settled first. -/
theorem areSound (ts : List Lexeme) : AreSound fin inner ts := by
  induction hn : ts.length using Nat.strongRecOn generalizing ts with
  | _ n ih =>
    subst hn
    have ih' : ∀ us : List Lexeme, us.length < ts.length → AreSound fin inner us :=
      fun us h => ih us.length h us rfl
    have hunary := unary_sound ih' (primary_sound ih')
    have hexpression := sound_of_unary hunary
    exact ⟨hexpression, hunary, links_sound ih', index_sound hexpression, propertyValue_sound ih',
      entries_sound ih', items_sound ih' hexpression⟩

/-- **What was cut short has no value**: an expression with a value was read to its end. -/
theorem exists_reads_of_eval {ts : List Lexeme} {scope : Scope} {v : Option Value}
    (h : (expression fin inner ts).tree.eval scope = .ok v) :
    ∃ us, Reads inner .expression ts (.expr (expression fin inner ts).tree) us := by
  have hsound := (areSound fin inner ts).expression
  cases hr : expression fin inner ts with
  | whole e us _ =>
    rw [hr] at hsound
    exact ⟨us, hsound⟩
  | cut e =>
    rw [hr] at hsound h
    exact absurd h (hsound _ _)

end Soundness

end Reader

end CardTable.Script
