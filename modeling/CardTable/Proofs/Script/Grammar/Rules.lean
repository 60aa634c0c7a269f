import CardTable.Script.Eval
import Mathlib.Tactic.Lemma

set_option autoImplicit false

/-!
# The grammar of expressions

The readers of expressions are functions that cut the tree short at the first breach of the syntax.
Here the trees without a cut are described by rules, one for each form of an expression and of its
parts.

## Main definitions

* `CardTable.Script.Expr.Fails` — an expression without a value in any scope.
* `CardTable.Script.Reader.Reads` — the rules: what part of the tokens is read as which tree.

## Main results

* `CardTable.Script.Expr.fails_cut` — behind a cut there is no value.
* `CardTable.Script.Reader.atSign_of_reads` — the signs that a part does not begin with.
-/

namespace CardTable.Script

/-! ## Trees without a value -/

/-- The expression has no value in any scope. -/
def Expr.Fails (e : Expr) : Prop :=
  ∀ scope v, e.eval scope ≠ .ok v

/-- An object literal with this part has no value. -/
def Entry.Fails (part : Entry) : Prop :=
  ∀ scope fields rest v, evalEntries scope fields (part :: rest) ≠ .ok v

/-- An array literal with this part has no value. -/
def Item.Fails (part : Item) : Prop :=
  ∀ scope rest v, evalItems scope (part :: rest) ≠ .ok v

/-- A bind succeeds if both of its steps do. -/
lemma bind_eq_ok_iff {ε α β : Type} {x : Except ε α} {f : α → Except ε β} {b : β} :
    (x >>= f) = .ok b ↔ ∃ a, x = .ok a ∧ f a = .ok b := by
  rcases x with e | a <;> simp [bind, Except.bind]

/-- A value that was changed comes from a value. -/
lemma map_eq_ok_iff {ε α β : Type} {x : Except ε α} {f : α → β} {b : β} :
    x.map f = .ok b ↔ ∃ a, x = .ok a ∧ f a = b := by
  rcases x with e | a <;> simp [Except.map]

/-- A bind whose first step succeeds. -/
lemma ok_bind {ε α β : Type} (a : α) (f : α → Except ε β) : (Except.ok a >>= f) = f a :=
  rfl

/-- The parts of an object literal are set one after the other. -/
lemma evalEntries_append (scope : Scope) (fields : Fields Value) (front behind : List Entry) :
    evalEntries scope fields (front ++ behind) =
      (evalEntries scope fields front >>= fun fields => evalEntries scope fields behind) := by
  induction front generalizing fields with
  | nil => simp [evalEntries, bind, Except.bind]
  | cons part rest ih =>
    cases part with
    | cut f => rfl
    | _ => simp only [List.cons_append, evalEntries, ih, bind_assoc]

/-- The accesses of a chain are made one after the other. -/
lemma evalLinks_append (scope : Scope) (reached : Reached) (front behind : List Link) :
    evalLinks scope reached (front ++ behind) =
      (evalLinks scope reached front >>= fun reached => evalLinks scope reached behind) := by
  induction front generalizing reached with
  | nil => simp [evalLinks, bind, Except.bind]
  | cons link rest ih =>
    cases link <;> simp only [List.cons_append, evalLinks, ih, bind_assoc]

/-- The items of an array literal are evaluated one after the other. -/
lemma evalItems_append (scope : Scope) (front behind : List Item) :
    evalItems scope (front ++ behind) =
      (evalItems scope front >>= fun values =>
        evalItems scope behind >>= fun more => .ok (values ++ more)) := by
  induction front with
  | nil => cases h : evalItems scope behind <;> simp [evalItems, bind, Except.bind, h]
  | cons part rest ih =>
    cases part <;>
      simp only [List.cons_append, evalItems, ih, bind_assoc, ok_bind, List.append_assoc]

namespace Expr

/-- Behind a cut there is no value. -/
theorem fails_cut (read : Option Expr) (f : Fault) : (Expr.cut read f).Fails := by
  intro scope v h
  cases read with
  | none => simp [Expr.eval] at h
  | some e =>
    simp only [Expr.eval, bind_eq_ok_iff] at h
    obtain ⟨_, _, h⟩ := h
    cases h

/-- A sign in front of what has no value has none. -/
lemma Fails.signed {e : Expr} (he : e.Fails) (negative : Bool) :
    (Expr.signed negative e).Fails := by
  intro scope v h
  simp only [Expr.eval, bind_eq_ok_iff] at h
  obtain ⟨_, h, _⟩ := h
  exact he _ _ h

end Expr

namespace Reader

/-! ## Accesses behind an expression -/

/-- The expression `base` with the accesses `links`, in order. -/
def linked (base : Expr) : List Link → Expr
  | [] => base
  | link :: links => .chain base (link :: links)

/-- Accesses that were collected the last one first. -/
lemma chained_eq (base : Expr) (read : List Link) :
    chained base read = linked base read.reverse := by
  cases read with
  | nil => rfl
  | cons link rest =>
    rw [chained]
    rcases h : (link :: rest).reverse with - | ⟨first, more⟩
    · simp at h
    · rfl

/-- A chain of accesses, the key of the last one having no value, has none. -/
lemma fails_chained {key : Expr} (hkey : key.Fails) (base : Expr) (read : List Link)
    (optional : Bool) : (chained base (.computed optional key :: read)).Fails := by
  intro scope v h
  simp only [chained, List.reverse_cons, Expr.eval, bind_eq_ok_iff, evalLinks_append] at h
  obtain ⟨_, _, _, ⟨_, _, h⟩, _⟩ := h
  simp only [evalLinks, bind_eq_ok_iff] at h
  obtain ⟨_, h, _⟩ := h
  exact hkey _ _ h

/-- An object literal, the last part of which has no value, has none. -/
lemma fails_object {part : Entry} (hpart : part.Fails) (front behind : List Entry) :
    (Expr.object (front ++ part :: behind)).Fails := by
  intro scope v h
  simp only [Expr.eval, bind_eq_ok_iff, evalEntries_append] at h
  obtain ⟨_, ⟨_, _, h⟩, _⟩ := h
  exact hpart _ _ _ _ h

/-- An array literal, the last part of which has no value, has none. -/
lemma fails_array {part : Item} (hpart : part.Fails) (front behind : List Item) :
    (Expr.array (front ++ part :: behind)).Fails := by
  intro scope v h
  simp only [Expr.eval, bind_eq_ok_iff, evalItems_append] at h
  obtain ⟨_, ⟨_, _, _, h, _⟩, _⟩ := h
  exact hpart _ _ _ h

/-! ## The rules -/

/-- The parts of an expression that have a reader of their own. -/
inductive Part where
  | expression | unary | links | index | primary | propertyValue | entry | entries | item | items
deriving DecidableEq

/-- What a part is read as. -/
inductive Node where
  | expr (e : Expr)
  | links (links : List Link)
  | entry (part : Entry)
  | entries (parts : List Entry)
  | item (part : Item)
  | items (parts : List Item)

/-- The token is the sign `c`. -/
abbrev IsPunct (c : Char) (t : Lexeme) : Prop :=
  t.token = .sign (.punct c)

/-- No access goes on behind `ts`. -/
def endsLinks : List Lexeme → Bool
  | [] => true
  | t :: rest =>
    match t.token with
    | .sign (.punct '.') | .sign .optionalDot | .sign (.punct '[') | .sign (.punct '(') => false
    | .sign (.punct '!') => atSign '=' rest
    | _ => true

/-- No operator stands at the front of `ts`. -/
def EndsExpression (ts : List Lexeme) : Prop :=
  ∀ c ∈ operatorSigns, atSign c ts = false

/-- The expression that a token stands for on its own, a name apart. -/
def atom? (inner : Substitution → Expr) : Token → Option Expr
  | .number x => some (.constant (some (numberValue x)))
  | .text s => some (.constant (some (.str s)))
  | .template head parts =>
    some (.template head (parts.map fun part => (inner part.1, part.2)))
  | .word w => (wordConstant? w).map .constant
  | .sign _ => none

/-- The property that a token names. -/
def literalKey? : Token → Option String
  | .word w => some w
  | .text s => some s
  | .number x => some (propertyKey (some (numberValue x)))
  | _ => none

/-- The sign in front of a property name that is written out. -/
def dot (optional : Bool) : Sign :=
  if optional then .optionalDot else .punct '.'

/-- The rules of the grammar. `Reads inner part ts node us` says that the tokens `ts` begin with the
given part, which is read as `node`, and that `us` is behind it. -/
inductive Reads (inner : Substitution → Expr) :
    Part → List Lexeme → Node → List Lexeme → Prop
  | expression {ts us : List Lexeme} {e : Expr} (hunary : Reads inner .unary ts (.expr e) us)
      (hend : EndsExpression (skipCasts us)) :
      Reads inner .expression ts (.expr e) (skipCasts us)
  | signed {t : Lexeme} {ts us : List Lexeme} {e : Expr} (negative : Bool)
      (ht : IsPunct (if negative then '-' else '+') t)
      (hunary : Reads inner .unary ts (.expr e) us) :
      Reads inner .unary (t :: ts) (.expr (.signed negative e)) us
  | plain {ts us vs : List Lexeme} {e : Expr} {links : List Link}
      (hprimary : Reads inner .primary ts (.expr e) us)
      (hlinks : Reads inner .links us (.links links) vs) :
      Reads inner .unary ts (.expr (linked e links)) vs
  | linksEnd {ts : List Lexeme} (hend : endsLinks ts = true) :
      Reads inner .links ts (.links []) ts
  | named {t u : Lexeme} {ts us : List Lexeme} {links : List Link} {w : String} (optional : Bool)
      (ht : t.token = .sign (dot optional)) (hu : u.token = .word w)
      (hlinks : Reads inner .links ts (.links links) us) :
      Reads inner .links (t :: u :: ts) (.links (.named optional w :: links)) us
  | computed {t : Lexeme} {ts us vs : List Lexeme} {key : Expr} {links : List Link}
      (ht : IsPunct '[' t) (hindex : Reads inner .index ts (.expr key) us)
      (hlinks : Reads inner .links us (.links links) vs) :
      Reads inner .links (t :: ts) (.links (.computed false key :: links)) vs
  | optionalComputed {t u : Lexeme} {ts us vs : List Lexeme} {key : Expr} {links : List Link}
      (ht : t.token = .sign .optionalDot) (hu : IsPunct '[' u)
      (hindex : Reads inner .index ts (.expr key) us)
      (hlinks : Reads inner .links us (.links links) vs) :
      Reads inner .links (t :: u :: ts) (.links (.computed true key :: links)) vs
  | nonNull {t : Lexeme} {ts us : List Lexeme} {links : List Link} (ht : IsPunct '!' t)
      (hnext : atSign '=' ts = false) (hlinks : Reads inner .links ts (.links links) us) :
      Reads inner .links (t :: ts) (.links links) us
  | index {t : Lexeme} {ts us : List Lexeme} {e : Expr}
      (hexpression : Reads inner .expression ts (.expr e) (t :: us)) (ht : IsPunct ']' t) :
      Reads inner .index ts (.expr e) us
  | atom {t : Lexeme} {ts : List Lexeme} {e : Expr} (ht : atom? inner t.token = some e) :
      Reads inner .primary (t :: ts) (.expr e) ts
  | name {t : Lexeme} {ts : List Lexeme} {w : String} (ht : t.token = .word w)
      (hconstant : wordConstant? w = none) (hsupported : w ∉ unsupportedWords)
      (hcall : atSign '(' ts = false) :
      Reads inner .primary (t :: ts) (.expr (.name w)) ts
  | bracketed {t u : Lexeme} {ts us : List Lexeme} {e : Expr} (ht : IsPunct '(' t)
      (hexpression : Reads inner .expression ts (.expr e) (u :: us)) (hu : IsPunct ')' u) :
      Reads inner .primary (t :: ts) (.expr e) us
  | object {t : Lexeme} {ts us : List Lexeme} {parts : List Entry} (ht : IsPunct '\x7b' t)
      (hentries : Reads inner .entries ts (.entries parts) us) :
      Reads inner .primary (t :: ts) (.expr (.object parts)) us
  | array {t : Lexeme} {ts us : List Lexeme} {parts : List Item} (ht : IsPunct '[' t)
      (hitems : Reads inner .items ts (.items parts) us) :
      Reads inner .primary (t :: ts) (.expr (.array parts)) us
  | propertyValue {t : Lexeme} {ts us : List Lexeme} {e : Expr} (ht : IsPunct ':' t)
      (hexpression : Reads inner .expression ts (.expr e) us) :
      Reads inner .propertyValue (t :: ts) (.expr e) us
  | spreadEntry {t : Lexeme} {ts us : List Lexeme} {e : Expr} (ht : t.token = .sign .spread)
      (hexpression : Reads inner .expression ts (.expr e) us) :
      Reads inner .entry (t :: ts) (.entry (.spread e)) us
  | shorthand {t : Lexeme} {ts : List Lexeme} {w : String} (ht : t.token = .word w)
      (hnext : atSign ',' ts = true ∨ atSign '\x7d' ts = true) :
      Reads inner .entry (t :: ts) (.entry (.shorthand w)) ts
  | property {t : Lexeme} {ts us : List Lexeme} {key : String} {e : Expr}
      (ht : literalKey? t.token = some key)
      (hvalue : Reads inner .propertyValue ts (.expr e) us) :
      Reads inner .entry (t :: ts) (.entry (.property key e)) us
  | computedProperty {t : Lexeme} {ts us vs : List Lexeme} {key e : Expr} (ht : IsPunct '[' t)
      (hindex : Reads inner .index ts (.expr key) us)
      (hvalue : Reads inner .propertyValue us (.expr e) vs) :
      Reads inner .entry (t :: ts) (.entry (.computed key e)) vs
  | noEntry {t : Lexeme} {ts : List Lexeme} (ht : IsPunct '\x7d' t) :
      Reads inner .entries (t :: ts) (.entries []) ts
  | moreEntries {t : Lexeme} {ts us vs : List Lexeme} {part : Entry} {parts : List Entry}
      (hentry : Reads inner .entry ts (.entry part) (t :: us)) (ht : IsPunct ',' t)
      (hentries : Reads inner .entries us (.entries parts) vs) :
      Reads inner .entries ts (.entries (part :: parts)) vs
  | lastEntry {t : Lexeme} {ts us : List Lexeme} {part : Entry}
      (hentry : Reads inner .entry ts (.entry part) (t :: us)) (ht : IsPunct '\x7d' t) :
      Reads inner .entries ts (.entries [part]) us
  | spreadItem {t : Lexeme} {ts us : List Lexeme} {e : Expr} (ht : t.token = .sign .spread)
      (hexpression : Reads inner .expression ts (.expr e) us) :
      Reads inner .item (t :: ts) (.item (.spread e)) us
  | valueItem {ts us : List Lexeme} {e : Expr}
      (hexpression : Reads inner .expression ts (.expr e) us) :
      Reads inner .item ts (.item (.value e)) us
  | noItem {t : Lexeme} {ts : List Lexeme} (ht : IsPunct ']' t) :
      Reads inner .items (t :: ts) (.items []) ts
  | hole {t : Lexeme} {ts us : List Lexeme} {parts : List Item} (ht : IsPunct ',' t)
      (hitems : Reads inner .items ts (.items parts) us) :
      Reads inner .items (t :: ts) (.items (.hole :: parts)) us
  | moreItems {t : Lexeme} {ts us vs : List Lexeme} {part : Item} {parts : List Item}
      (hitem : Reads inner .item ts (.item part) (t :: us)) (ht : IsPunct ',' t)
      (hitems : Reads inner .items us (.items parts) vs) :
      Reads inner .items ts (.items (part :: parts)) vs
  | lastItem {t : Lexeme} {ts us : List Lexeme} {part : Item}
      (hitem : Reads inner .item ts (.item part) (t :: us)) (ht : IsPunct ']' t) :
      Reads inner .items ts (.items [part]) us

/-! ## Tokens at the front -/

section Front

variable {c : Char} {t : Lexeme} {ts : List Lexeme}

/-- The first token is the sign `c`. -/
lemma atSign_cons_iff : atSign c (t :: ts) = true ↔ IsPunct c t := by
  obtain ⟨token, offset, afterBreak, source⟩ := t
  unfold IsPunct
  unfold atSign
  split
  · next h =>
    obtain ⟨⟨⟩, -⟩ := List.cons.inj h
    rw [beq_iff_eq, Token.sign.injEq, Sign.punct.injEq, eq_comm]
  · next h =>
    simp only [Bool.false_eq_true, false_iff]
    rintro rfl
    exact h _ _ _ _ _ rfl

/-- A list that begins with the sign `c`. -/
lemma exists_of_atSign (h : atSign c ts = true) : ∃ t rest, ts = t :: rest ∧ IsPunct c t := by
  cases ts with
  | nil => cases h
  | cons t rest => exact ⟨t, rest, rfl, atSign_cons_iff.1 h⟩

/-- What is behind the sign `c`. -/
lemma sign?_eq_some_iff {rest : List Lexeme} {h : rest.length < ts.length} :
    sign? c ts = some ⟨rest, h⟩ ↔ ∃ t, ts = t :: rest ∧ IsPunct c t := by
  cases ts with
  | nil => simp [sign?]
  | cons t us =>
    rw [sign?]
    split
    · next hsign =>
      have := atSign_cons_iff.1 hsign
      simp only [Option.some.injEq, Subtype.mk.injEq, List.cons.injEq]
      constructor
      · rintro rfl
        exact ⟨t, ⟨rfl, rfl⟩, this⟩
      · rintro ⟨_, ⟨_, rfl⟩, _⟩
        rfl
    · next hsign =>
      simp only [reduceCtorEq, List.cons.injEq, false_iff, not_exists, not_and]
      rintro _ ⟨rfl, rfl⟩ ht
      exact hsign (atSign_cons_iff.2 ht)

/-- Another first token than the sign `c`. -/
lemma sign?_eq_none_iff : sign? c ts = none ↔ atSign c ts = false := by
  cases ts with
  | nil => simp [sign?, atSign]
  | cons t us =>
    rw [sign?]
    split
    · next hsign => simp [hsign]
    · next hsign => simpa using hsign

/-- The sign `c` is taken off. -/
lemma sign?_of_isPunct (ht : IsPunct c t) :
    sign? c (t :: ts) = some ⟨ts, Nat.lt_succ_self _⟩ :=
  sign?_eq_some_iff.2 ⟨t, rfl, ht⟩

/-- Another token than the sign `c`. -/
lemma atSign_eq_false (ht : t.token ≠ .sign (.punct c)) : atSign c (t :: ts) = false :=
  Bool.eq_false_iff.2 (mt atSign_cons_iff.1 ht)

/-- A sign is the sign `c` if its character is. -/
lemma IsPunct.atSign_cons {d : Char} (ht : IsPunct d t) (ts : List Lexeme) :
    atSign c (t :: ts) = (c == d) := by
  rw [Bool.eq_iff_iff, atSign_cons_iff, beq_iff_eq, IsPunct, ht, Token.sign.injEq,
    Sign.punct.injEq, eq_comm]

/-- Another sign than `c` is not the sign `c`. -/
lemma IsPunct.atSign_eq_false {d : Char} (ht : IsPunct d t) (h : d ≠ c)
    (ts : List Lexeme) : atSign c (t :: ts) = false := by
  rw [ht.atSign_cons, beq_eq_false_iff_ne]
  exact h.symm

/-- No access begins with another sign than these. -/
lemma endsLinks_of_isPunct (ht : IsPunct c t) (hc : c ∉ ['.', '[', '(', '!']) :
    endsLinks (t :: ts) = true := by
  simp only [List.mem_cons, List.not_mem_nil, or_false, not_or] at hc
  unfold endsLinks
  dsimp only
  split
  case h_2 heq => exact absurd (ht.symm.trans heq) nofun
  case h_6 => rfl
  all_goals
    next heq =>
    obtain ⟨⟩ := ht.symm.trans heq
    simp at hc

variable (fin : TextEnd)

/-- The expected sign is there. -/
lemma expectSign_of_isPunct (ht : IsPunct c t) :
    expectSign fin c (t :: ts) = .ok ⟨ts, Nat.lt_succ_self _⟩ := by
  rw [expectSign, sign?_of_isPunct ht]

/-- What is behind the expected sign. -/
lemma exists_of_expectSign {fin : TextEnd} {rest : List Lexeme} {h : rest.length < ts.length}
    (hsign : expectSign fin c ts = .ok ⟨rest, h⟩) : ∃ t, ts = t :: rest ∧ IsPunct c t := by
  unfold expectSign at hsign
  split at hsign
  · next found heq =>
    obtain rfl : found = ⟨rest, h⟩ := by simpa using hsign
    exact sign?_eq_some_iff.1 heq
  · cases hsign

/-- Behind an expression no operator is found. -/
lemma find?_operatorSigns_eq_none_iff :
    operatorSigns.find? (atSign · ts) = none ↔ EndsExpression ts := by
  simp [List.find?_eq_none, EndsExpression]

end Front

/-! ## The first token of a part -/

section First

variable {inner : Substitution → Expr}

/-- A literal, a name or an expression in brackets begins with no sign but a bracket. -/
lemma atSign_of_primary {ts us : List Lexeme} {e : Expr} {c : Char}
    (h : Reads inner .primary ts (.expr e) us) (hc : c ∉ ['(', '[', '\x7b']) :
    atSign c ts = false := by
  simp only [List.mem_cons, List.not_mem_nil, or_false, not_or] at hc
  cases h with
  | atom ht => exact atSign_eq_false fun h => by simp [h, atom?] at ht
  | name ht => exact atSign_eq_false (by simp [ht])
  | bracketed ht => exact ht.atSign_eq_false (Ne.symm hc.1) _
  | array ht => exact ht.atSign_eq_false (Ne.symm hc.2.1) _
  | object ht => exact ht.atSign_eq_false (Ne.symm hc.2.2) _

/-- An expression begins with no sign but a bracket or the sign of a number, and a part of a
literal as well. -/
theorem atSign_of_reads {part : Part} {ts us : List Lexeme} {node : Node} {c : Char}
    (h : Reads inner part ts node us) (hpart : part ∈ [.expression, .unary, .entry, .item])
    (hc : c ∉ ['-', '+', '(', '[', '\x7b']) : atSign c ts = false := by
  simp only [List.mem_cons, List.not_mem_nil, or_false, not_or] at hc
  obtain ⟨hminus, hplus, hround, hsquare, hbrace⟩ := hc
  induction h with
  | expression _ _ ih => exact ih (by decide)
  | @signed t _ _ _ negative ht =>
    cases negative with
    | false => exact IsPunct.atSign_eq_false (d := '+') ht (Ne.symm hplus) _
    | true => exact IsPunct.atSign_eq_false (d := '-') ht (Ne.symm hminus) _
  | plain hprimary => exact atSign_of_primary hprimary (by simp [hround, hsquare, hbrace])
  | spreadEntry ht | shorthand ht | spreadItem ht => exact atSign_eq_false (by simp [ht])
  | property ht => exact atSign_eq_false fun h => by simp [h, literalKey?] at ht
  | computedProperty ht => exact ht.atSign_eq_false (Ne.symm hsquare) _
  | valueItem _ ih => exact ih (by decide)
  | _ => simp at hpart

/-- An expression does not begin with three dots. -/
lemma ne_spread_of_reads {part : Part} {t : Lexeme} {rest us : List Lexeme} {node : Node}
    (h : Reads inner part (t :: rest) node us) (hpart : part ∈ [.expression, .unary, .primary]) :
    t.token ≠ .sign .spread := by
  generalize hts : t :: rest = ts at h
  induction h with
  | expression _ _ ih => exact ih (by decide) hts
  | plain _ _ ih => exact ih (by decide) hts
  | signed _ ht | bracketed ht | object ht | array ht =>
    obtain ⟨rfl, rfl⟩ := List.cons.inj hts
    simp [ht]
  | name ht =>
    obtain ⟨rfl, rfl⟩ := List.cons.inj hts
    simp [ht]
  | atom ht =>
    obtain ⟨rfl, rfl⟩ := List.cons.inj hts
    exact fun h => by simp [h, atom?] at ht
  | _ => simp at hpart

end First

end Reader

end CardTable.Script
