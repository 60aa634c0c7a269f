import CardTable.Proofs.Script.Grammar.Soundness
import Mathlib.Tactic.Lemma

set_option autoImplicit false

/-!
# Readers find what the grammar gives

A reader gives every tree that the rules give, and it finds the same end of it. Together with the
soundness of the readers, an expression is read to its end if and only if the rules give it.

## Main definitions

* `CardTable.Script.Reading.IsWhole` — a tree was read to its end.
* `CardTable.Script.Reader.Gives` — the reader of a part gives a whole tree.

## Main results

* `CardTable.Script.Reader.gives_of_reads` — what the rules give is read.
* `CardTable.Script.Reader.expression_isWhole_iff` — the readers find exactly what the rules give.
-/

namespace CardTable.Script

namespace Reading

variable {α β : Type} {n m : Nat}

/-- The tree was read to its end, and `behind` is behind it. -/
def IsWhole (r : Reading α n) (tree : α) (behind : List Lexeme) : Prop :=
  ∃ h, r = .whole tree behind h

/-- What is read to its end is so in a longer token list. -/
lemma IsWhole.weaken {r : Reading α n} {tree : α} {behind : List Lexeme}
    (hr : r.IsWhole tree behind) (h : n ≤ m) : (r.weaken h).IsWhole tree behind := by
  obtain ⟨_, rfl⟩ := hr
  exact ⟨_, rfl⟩

/-- What is read to its end is so inside a larger tree. -/
lemma IsWhole.map {r : Reading α n} {tree : α} {behind : List Lexeme}
    (hr : r.IsWhole tree behind) (f : α → β) : (r.map f).IsWhole (f tree) behind := by
  obtain ⟨_, rfl⟩ := hr
  exact ⟨_, rfl⟩

end Reading

namespace Reader

section Completeness

variable (fin : TextEnd) {inner : Substitution → Expr}

/-- The readers give the whole tree that the rules give. -/
def Gives (fin : TextEnd) (inner : Substitution → Expr) :
    Part → List Lexeme → Node → List Lexeme → Prop
  | .expression, ts, .expr e, us => (expression fin inner ts).IsWhole e us
  | .unary, ts, .expr e, us => (unary fin inner ts).IsWhole e us
  | .index, ts, .expr e, us => (index fin inner ts).IsWhole e us
  | .primary, ts, .expr e, us => (primary fin inner ts).IsWhole e us
  | .propertyValue, ts, .expr e, us => (propertyValue fin inner ts).IsWhole e us
  | .links, ts, .links ls, us => ∀ base read,
    (links fin inner base read ts).IsWhole (linked base (read.reverse ++ ls)) us
  | .entry, ts, .entry part, us => (entry fin inner ts).IsWhole part us
  | .entries, ts, .entries parts, us => ∀ read,
    (entries fin inner read ts).IsWhole (.object (read.reverse ++ parts)) us
  | .item, ts, .item part, us => (item fin inner ts).IsWhole part us
  | .items, ts, .items parts, us => ∀ read,
    (items fin inner read ts).IsWhole (.array (read.reverse ++ parts)) us
  | _, _, _, _ => False

/-- An expression behind which no operator stands. -/
lemma expression_isWhole {ts us : List Lexeme} {e : Expr}
    (hunary : (unary fin inner ts).IsWhole e us) (hend : EndsExpression (skipCasts us)) :
    (expression fin inner ts).IsWhole e (skipCasts us) := by
  obtain ⟨h, hunary⟩ := hunary
  have harrow : ¬ (atSign '=' (skipCasts us) = true ∧ atSign '>' (skipCasts us).tail = true) := by
    rw [hend '=' (by decide)]
    exact fun h => Bool.false_ne_true h.1
  rw [expression, hunary]
  dsimp only
  rw [if_neg harrow, find?_operatorSigns_eq_none_iff.2 hend]
  exact ⟨_, rfl⟩

/-- A number sign and what is behind it. -/
lemma unary_isWhole_of_signed {t : Lexeme} {ts us : List Lexeme} {e : Expr} {negative : Bool}
    (ht : IsPunct (if negative then '-' else '+') t) (hunary : (unary fin inner ts).IsWhole e us) :
    (unary fin inner (t :: ts)).IsWhole (.signed negative e) us := by
  rw [unary]
  cases negative with
  | true =>
    have hminus : IsPunct '-' t := ht
    rw [sign?_of_isPunct hminus]
    exact (hunary.map _).weaken _
  | false =>
    have hplus : IsPunct '+' t := ht
    have hminus : atSign '-' (t :: ts) = false := atSign_eq_false (by simp [hplus])
    rw [sign?_eq_none_iff.2 hminus, sign?_of_isPunct hplus]
    exact (hunary.map _).weaken _

/-- A literal, name or expression in brackets with the accesses behind it. -/
lemma unary_isWhole_of_plain {ts us vs : List Lexeme} {e : Expr} {links : List Link}
    (hstart : ∀ c ∈ ['-', '+'], atSign c ts = false)
    (hprimary : (primary fin inner ts).IsWhole e us)
    (hlinks : (Reader.links fin inner e [] us).IsWhole (linked e links) vs) :
    (unary fin inner ts).IsWhole (linked e links) vs := by
  obtain ⟨_, hprimary⟩ := hprimary
  rw [unary, sign?_eq_none_iff.2 (hstart '-' (by decide)),
    sign?_eq_none_iff.2 (hstart '+' (by decide)), hprimary]
  exact hlinks.weaken _

/-- Where no access goes on, the expression ends. -/
lemma links_isWhole_of_end {ts : List Lexeme} (hend : endsLinks ts = true) (base : Expr)
    (read : List Link) :
    (links fin inner base read ts).IsWhole (linked base read.reverse) ts := by
  rw [← chained_eq]
  cases ts with
  | nil =>
    rw [links]
    exact ⟨_, rfl⟩
  | cons t rest =>
    rw [links.eq_def]
    unfold endsLinks at hend
    dsimp only at hend ⊢
    split
    all_goals simp_all [Reading.IsWhole]

/-- An access by a written name, and the accesses behind it. -/
lemma links_isWhole_of_named {t u : Lexeme} {ts us : List Lexeme} {w : String} {e base : Expr}
    {read : List Link} {optional : Bool} (ht : t.token = .sign (dot optional))
    (hu : u.token = .word w)
    (hlinks : (links fin inner base (.named optional w :: read) ts).IsWhole e us) :
    (links fin inner base read (t :: u :: ts)).IsWhole e us := by
  obtain ⟨_, _, _, _⟩ := u
  obtain rfl := hu
  rw [links.eq_def]
  cases optional <;>
  · simp only [ht, dot, if_true, Bool.false_eq_true, if_false]
    exact hlinks.weaken _

/-- An access by a key in brackets, and the accesses behind it. -/
lemma links_isWhole_of_index {t : Lexeme} {ts us vs : List Lexeme} {key e base : Expr}
    {read : List Link} (ht : IsPunct '[' t) (hindex : (index fin inner ts).IsWhole key us)
    (hlinks : (links fin inner base (.computed false key :: read) us).IsWhole e vs) :
    (links fin inner base read (t :: ts)).IsWhole e vs := by
  obtain ⟨_, hindex⟩ := hindex
  rw [links.eq_def]
  simp only [ht, hindex]
  exact hlinks.weaken _

/-- An optional access by a key in brackets, and the accesses behind it. -/
lemma links_isWhole_of_optionalIndex {t u : Lexeme} {ts us vs : List Lexeme}
    {key e base : Expr} {read : List Link} (ht : t.token = .sign .optionalDot) (hu : IsPunct '[' u)
    (hindex : (index fin inner ts).IsWhole key us)
    (hlinks : (links fin inner base (.computed true key :: read) us).IsWhole e vs) :
    (links fin inner base read (t :: u :: ts)).IsWhole e vs := by
  obtain ⟨_, hindex⟩ := hindex
  obtain ⟨_, _, _, _⟩ := u
  obtain rfl := hu
  rw [links.eq_def]
  simp only [ht, hindex]
  exact hlinks.weaken _

/-- An exclamation mark in front of no equals sign counts for nothing. -/
lemma links_isWhole_of_nonNull {t : Lexeme} {ts us : List Lexeme} {e base : Expr}
    {read : List Link} (ht : IsPunct '!' t) (hnext : atSign '=' ts = false)
    (hlinks : (links fin inner base read ts).IsWhole e us) :
    (links fin inner base read (t :: ts)).IsWhole e us := by
  rw [links.eq_def]
  simp only [ht, hnext, Bool.false_eq_true, if_false]
  exact hlinks.weaken _

/-- A key up to its bracket. -/
lemma index_isWhole {t : Lexeme} {ts us : List Lexeme} {e : Expr}
    (hexpression : (expression fin inner ts).IsWhole e (t :: us)) (ht : IsPunct ']' t) :
    (index fin inner ts).IsWhole e us := by
  obtain ⟨_, hexpression⟩ := hexpression
  rw [index, hexpression]
  dsimp only
  rw [expectSign_of_isPunct fin ht]
  exact ⟨_, rfl⟩

/-- A token that is an expression on its own. -/
lemma primary_isWhole_of_atom {t : Lexeme} {e : Expr} (ts : List Lexeme)
    (ht : atom? inner t.token = some e) : (primary fin inner (t :: ts)).IsWhole e ts := by
  rw [primary]
  cases htoken : t.token with
  | number x | text s | template head parts =>
    rw [htoken] at ht
    obtain rfl := Option.some.inj ht
    exact ⟨_, rfl⟩
  | word w =>
    rw [htoken] at ht
    obtain ⟨v, hconstant, rfl⟩ := Option.map_eq_some_iff.1 ht
    simp only [hconstant]
    exact ⟨_, rfl⟩
  | sign s =>
    rw [htoken] at ht
    cases ht

/-- A name. -/
lemma primary_isWhole_of_name {t : Lexeme} {ts : List Lexeme} {w : String}
    (ht : t.token = .word w) (hconstant : wordConstant? w = none)
    (hsupported : w ∉ unsupportedWords)
    (hcall : atSign '(' ts = false) : (primary fin inner (t :: ts)).IsWhole (.name w) ts := by
  rw [primary]
  simp only [ht, hconstant, hsupported, hcall, Bool.false_eq_true, if_false]
  exact ⟨_, rfl⟩

/-- An expression in brackets. -/
lemma primary_isWhole_of_bracketed {t u : Lexeme} {ts us : List Lexeme} {e : Expr}
    (ht : IsPunct '(' t) (hexpression : (expression fin inner ts).IsWhole e (u :: us))
    (hu : IsPunct ')' u) : (primary fin inner (t :: ts)).IsWhole e us := by
  obtain ⟨_, hexpression⟩ := hexpression
  rw [primary]
  simp only [ht, hexpression, expectSign_of_isPunct fin hu]
  exact ⟨_, rfl⟩

/-- The value behind a property name. -/
lemma propertyValue_isWhole {t : Lexeme} {ts us : List Lexeme} {e : Expr} (ht : IsPunct ':' t)
    (hexpression : (expression fin inner ts).IsWhole e us) :
    (propertyValue fin inner (t :: ts)).IsWhole e us := by
  rw [propertyValue, sign?_of_isPunct ht]
  exact hexpression.weaken _

/-- A property whose name is written out. -/
lemma entry_isWhole_of_property {t : Lexeme} {ts us : List Lexeme} {key : String} {e : Expr}
    (ht : literalKey? t.token = some key) (hcolon : atSign ':' ts = true)
    (hvalue : (propertyValue fin inner ts).IsWhole e us) :
    (entry fin inner (t :: ts)).IsWhole (.property key e) us := by
  obtain ⟨u, rest, rfl, hu⟩ := exists_of_atSign hcolon
  have hnext : ¬ (atSign ',' (u :: rest) = true ∨ atSign '\x7d' (u :: rest) = true) := by
    rw [hu.atSign_eq_false (by decide), hu.atSign_eq_false (by decide)]
    simp
  have hproperty := (hvalue.map (Entry.property key)).weaken (Nat.le_succ _)
  rw [entry]
  cases htoken : t.token with
  | word w =>
    obtain rfl : w = key := by simpa [htoken, literalKey?] using ht
    simp only [if_neg hnext]
    exact hproperty
  | text s =>
    obtain rfl : s = key := by simpa [htoken, literalKey?] using ht
    exact hproperty
  | number x =>
    obtain rfl : propertyKey (some (numberValue x)) = key := by
      simpa [htoken, literalKey?] using ht
    exact hproperty
  | template | sign => simp [htoken, literalKey?] at ht

/-- A property whose name is computed. -/
lemma entry_isWhole_of_computed {t : Lexeme} {ts us vs : List Lexeme} {key e : Expr}
    (ht : IsPunct '[' t) (hindex : (index fin inner ts).IsWhole key us)
    (hvalue : (propertyValue fin inner us).IsWhole e vs) :
    (entry fin inner (t :: ts)).IsWhole (.computed key e) vs := by
  obtain ⟨_, hindex⟩ := hindex
  rw [entry]
  simp only [ht, hindex]
  exact (hvalue.map _).weaken _

/-- A part of an object literal, and the parts behind it. -/
lemma entries_isWhole_of_more {t : Lexeme} {ts us vs : List Lexeme} {part : Entry} {e : Expr}
    {read : List Entry} (hstart : atSign '\x7d' ts = false)
    (hentry : (entry fin inner ts).IsWhole part (t :: us)) (ht : IsPunct ',' t)
    (hentries : (entries fin inner (part :: read) us).IsWhole e vs) :
    (entries fin inner read ts).IsWhole e vs := by
  obtain ⟨_, hentry⟩ := hentry
  rw [entries, sign?_eq_none_iff.2 hstart, hentry]
  dsimp only
  rw [sign?_of_isPunct ht]
  exact hentries.weaken _

/-- The last part of an object literal. -/
lemma entries_isWhole_of_last {t : Lexeme} {ts us : List Lexeme} {part : Entry}
    (hstart : atSign '\x7d' ts = false) (hentry : (entry fin inner ts).IsWhole part (t :: us))
    (ht : IsPunct '\x7d' t) (read : List Entry) :
    (entries fin inner read ts).IsWhole (.object (read.reverse ++ [part])) us := by
  obtain ⟨_, hentry⟩ := hentry
  have hcomma : sign? ',' (t :: us) = none :=
    sign?_eq_none_iff.2 (ht.atSign_eq_false (by decide) _)
  rw [entries, sign?_eq_none_iff.2 hstart, hentry]
  dsimp only
  rw [hcomma, expectSign_of_isPunct fin ht, List.reverse_cons]
  exact ⟨_, rfl⟩

/-- An item of an array literal is not spread unless it begins with three dots. -/
lemma item_isWhole_of_value {ts us : List Lexeme} {e : Expr}
    (hstart : ∀ t rest, ts = t :: rest → t.token ≠ .sign .spread)
    (hexpression : (expression fin inner ts).IsWhole e us) :
    (item fin inner ts).IsWhole (.value e) us := by
  rw [item.eq_def]
  split
  · exact absurd rfl (hstart _ _ rfl)
  · exact hexpression.map _

/-- A part of an array literal, and the parts behind it. -/
lemma items_isWhole_of_more {t : Lexeme} {ts us vs : List Lexeme} {part : Item} {e : Expr}
    {read : List Item} (hclose : atSign ']' ts = false) (hcomma : atSign ',' ts = false)
    (hitem : (item fin inner ts).IsWhole part (t :: us)) (ht : IsPunct ',' t)
    (hitems : (items fin inner (part :: read) us).IsWhole e vs) :
    (items fin inner read ts).IsWhole e vs := by
  obtain ⟨_, hitem⟩ := hitem
  rw [items, sign?_eq_none_iff.2 hclose, sign?_eq_none_iff.2 hcomma]
  dsimp only
  rw [hitem]
  dsimp only
  rw [sign?_of_isPunct ht]
  exact hitems.weaken _

/-- The last part of an array literal. -/
lemma items_isWhole_of_last {t : Lexeme} {ts us : List Lexeme} {part : Item}
    (hclose : atSign ']' ts = false) (hcomma : atSign ',' ts = false)
    (hitem : (item fin inner ts).IsWhole part (t :: us)) (ht : IsPunct ']' t) (read : List Item) :
    (items fin inner read ts).IsWhole (.array (read.reverse ++ [part])) us := by
  obtain ⟨_, hitem⟩ := hitem
  have hnext : sign? ',' (t :: us) = none :=
    sign?_eq_none_iff.2 (ht.atSign_eq_false (by decide) _)
  rw [items, sign?_eq_none_iff.2 hclose, sign?_eq_none_iff.2 hcomma]
  dsimp only
  rw [hitem]
  dsimp only
  rw [hnext, expectSign_of_isPunct fin ht, List.reverse_cons]
  exact ⟨_, rfl⟩

/-- A place left empty, and the parts behind it. -/
lemma items_isWhole_of_hole {t : Lexeme} {ts us : List Lexeme} {e : Expr} {read : List Item}
    (ht : IsPunct ',' t) (hitems : (items fin inner (.hole :: read) ts).IsWhole e us) :
    (items fin inner read (t :: ts)).IsWhole e us := by
  rw [items, sign?_eq_none_iff.2 (ht.atSign_eq_false (by decide) _), sign?_of_isPunct ht]
  exact hitems.weaken _

/-- What the rules give is read.

**Proof sketch.** Induction on the rules, with one lemma for each of them: the reader looks at the
same tokens as the rule, and takes what is read of the smaller parts from the induction hypotheses.
For links, entries and items the hypothesis is about every list of parts read before. -/
theorem gives_of_reads {part : Part} {ts us : List Lexeme} {node : Node}
    (h : Reads inner part ts node us) : Gives fin inner part ts node us := by
  induction h with
  | expression _ hend ih => exact expression_isWhole fin ih hend
  | signed _ ht _ ih => exact unary_isWhole_of_signed fin ht ih
  | plain hprimary _ ihprimary ihlinks =>
    have hstart : ∀ c ∈ ['-', '+'], c ∉ ['(', '[', '\x7b'] := by decide
    exact unary_isWhole_of_plain fin (fun c hc => atSign_of_primary hprimary (hstart c hc))
      ihprimary (ihlinks _ [])
  | linksEnd hend =>
    intro base read
    rw [List.append_nil]
    exact links_isWhole_of_end fin hend base read
  | named optional ht hu _ ih =>
    exact fun base read => links_isWhole_of_named fin ht hu (by simpa using ih base (_ :: read))
  | computed ht _ _ ihindex ihlinks =>
    exact fun base read =>
      links_isWhole_of_index fin ht ihindex (by simpa using ihlinks base (_ :: read))
  | optionalComputed ht hu _ _ ihindex ihlinks =>
    exact fun base read =>
      links_isWhole_of_optionalIndex fin ht hu ihindex (by simpa using ihlinks base (_ :: read))
  | nonNull ht hnext _ ih =>
    exact fun base read => links_isWhole_of_nonNull fin ht hnext (ih base read)
  | index _ ht ih => exact index_isWhole fin ih ht
  | atom ht => exact primary_isWhole_of_atom fin _ ht
  | name ht hconstant hsupported hcall =>
    exact primary_isWhole_of_name fin ht hconstant hsupported hcall
  | bracketed ht _ hu ih => exact primary_isWhole_of_bracketed fin ht ih hu
  | object ht _ ih =>
    rw [Gives, primary]
    simp only [ht]
    exact (ih []).weaken _
  | array ht _ ih =>
    rw [Gives, primary]
    simp only [ht]
    exact (ih []).weaken _
  | propertyValue ht _ ih => exact propertyValue_isWhole fin ht ih
  | spreadEntry ht _ ih =>
    rw [Gives, entry]
    simp only [ht]
    exact (ih.map _).weaken _
  | shorthand ht hnext =>
    rw [Gives, entry]
    simp only [ht, if_pos hnext]
    exact ⟨_, rfl⟩
  | property ht hvalue ih =>
    refine entry_isWhole_of_property fin ht ?_ ih
    cases hvalue with
    | propertyValue hcolon => exact atSign_cons_iff.2 hcolon
  | computedProperty ht _ _ ihindex ihvalue =>
    exact entry_isWhole_of_computed fin ht ihindex ihvalue
  | noEntry ht =>
    intro read
    rw [entries, sign?_of_isPunct ht, List.append_nil]
    exact ⟨_, rfl⟩
  | moreEntries hentry ht _ ihentry ihentries =>
    exact fun read => entries_isWhole_of_more fin (atSign_of_reads hentry (by decide) (by decide))
      ihentry ht (by simpa using ihentries (_ :: read))
  | lastEntry hentry ht ih =>
    exact entries_isWhole_of_last fin (atSign_of_reads hentry (by decide) (by decide)) ih ht
  | @spreadItem t _ _ _ ht _ ih =>
    obtain ⟨_, _, _, _⟩ := t
    obtain rfl := ht
    rw [Gives, item]
    exact (ih.map _).weaken _
  | valueItem hexpression ih =>
    refine item_isWhole_of_value fin ?_ ih
    rintro t rest rfl
    exact ne_spread_of_reads hexpression (by decide)
  | noItem ht =>
    intro read
    rw [items, sign?_of_isPunct ht, List.append_nil]
    exact ⟨_, rfl⟩
  | hole ht _ ih =>
    exact fun read => items_isWhole_of_hole fin ht (by simpa using ih (_ :: read))
  | moreItems hitem ht _ ihitem ihitems =>
    exact fun read => items_isWhole_of_more fin (atSign_of_reads hitem (by decide) (by decide))
      (atSign_of_reads hitem (by decide) (by decide)) ihitem ht (by simpa using ihitems (_ :: read))
  | lastItem hitem ht ih =>
    exact items_isWhole_of_last fin (atSign_of_reads hitem (by decide) (by decide))
      (atSign_of_reads hitem (by decide) (by decide)) ih ht

/-- **The readers find exactly what the rules give**: an expression is read to its end as `e` if
and only if the rules give it.

**Proof sketch.** The readers are sound (`areSound`): what they read to its end is given by the
rules. And they are complete (`gives_of_reads`). -/
theorem expression_isWhole_iff {ts us : List Lexeme} {e : Expr} :
    (expression fin inner ts).IsWhole e us ↔ Reads inner .expression ts (.expr e) us := by
  constructor
  · rintro ⟨h, hwhole⟩
    have hsound := (areSound fin inner ts).expression
    rwa [hwhole] at hsound
  · exact gives_of_reads fin

end Completeness

end Reader

end CardTable.Script
