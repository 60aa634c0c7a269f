import CardTable.Proofs.Script.Grammar.Rules
import CardTable.Proofs.Script.Lexer.TokenLocality

set_option autoImplicit false

/-!
# Expressions that have the same values

An expression refines to another one if every value that it has in a scope is a value of the other
one there. This is kept by every form of expression. It is what remains of an expression whose
tokens are read elsewhere: faults carry offsets and may differ.

## Main definitions

* `CardTable.Script.Expr.Refines` — the other expression has the same value wherever the first one
  has one.
* `CardTable.Script.Lexeme.Alike` — the same token, wherever it stands.

## Main results

* `CardTable.Script.Reader.atom?_of_alike` — tokens that are alike stand for expressions with the
  same values.
-/

namespace CardTable.Script

/-! ## Refinement -/

/-- Wherever `e` has a value, `e'` has the same one. -/
def Expr.Refines (e e' : Expr) : Prop :=
  ∀ scope v, e.eval scope = .ok v → e'.eval scope = .ok v

/-- Wherever the parts of a template have a text, the others have the same one. -/
def PartsRefine (parts parts' : List (Expr × String)) : Prop :=
  ∀ scope s, evalParts scope parts = .ok s → evalParts scope parts' = .ok s

/-- Wherever accesses lead to a value, the others lead to the same one. -/
def LinksRefine (links links' : List Link) : Prop :=
  ∀ scope reached r, evalLinks scope reached links = .ok r → evalLinks scope reached links' = .ok r

/-- Wherever the parts of an object literal can be set, the others set the same fields. -/
def EntriesRefine (parts parts' : List Entry) : Prop :=
  ∀ scope fields r, evalEntries scope fields parts = .ok r → evalEntries scope fields parts' = .ok r

/-- Wherever the parts of an array literal have values, the others have the same ones. -/
def ItemsRefine (parts parts' : List Item) : Prop :=
  ∀ scope values, evalItems scope parts = .ok values → evalItems scope parts' = .ok values

section Congruence

variable {e e' key key' : Expr}

/-- Every expression refines to itself. -/
lemma Expr.Refines.refl (e : Expr) : e.Refines e :=
  fun _ _ h => h

/-- Expressions with a sign refine like their operands. -/
lemma Expr.Refines.signed (h : e.Refines e') (negative : Bool) :
    (Expr.signed negative e).Refines (.signed negative e') := by
  intro scope v hv
  simp only [Expr.eval, bind_eq_ok_iff] at hv ⊢
  obtain ⟨w, hw, hv⟩ := hv
  exact ⟨w, h _ _ hw, hv⟩

/-- The value of an expression with accesses behind it, of which there may be none. -/
lemma Reader.eval_linked (scope : Scope) (base : Expr) (links : List Link) :
    (linked base links).eval scope = (Expr.chain base links).eval scope := by
  cases links with
  | nil =>
    simp only [linked, Expr.eval, evalLinks]
    cases base.eval scope <;> rfl
  | cons => rfl

/-- Expressions with accesses refine like the bases and the accesses. -/
lemma Expr.Refines.linked {links links' : List Link} (h : e.Refines e')
    (hlinks : LinksRefine links links') :
    (Reader.linked e links).Refines (Reader.linked e' links') := by
  intro scope v hv
  rw [Reader.eval_linked] at hv ⊢
  simp only [Expr.eval, bind_eq_ok_iff] at hv ⊢
  obtain ⟨w, hw, r, hr, hv⟩ := hv
  exact ⟨w, h _ _ hw, r, hlinks _ _ _ hr, hv⟩

/-- Literals refine like their properties. -/
lemma Expr.Refines.object {parts parts' : List Entry} (h : EntriesRefine parts parts') :
    (Expr.object parts).Refines (.object parts') := by
  intro scope v hv
  simp only [Expr.eval, bind_eq_ok_iff] at hv ⊢
  obtain ⟨fields, hfields, hv⟩ := hv
  exact ⟨fields, h _ _ _ hfields, hv⟩

/-- Literals refine like their elements. -/
lemma Expr.Refines.array {parts parts' : List Item} (h : ItemsRefine parts parts') :
    (Expr.array parts).Refines (.array parts') := by
  intro scope v hv
  simp only [Expr.eval, bind_eq_ok_iff] at hv ⊢
  obtain ⟨values, hvalues, hv⟩ := hv
  exact ⟨values, h _ _ hvalues, hv⟩

/-- Templates refine like their parts. -/
lemma Expr.Refines.template {parts parts' : List (Expr × String)} (h : PartsRefine parts parts')
    (head : String) : (Expr.template head parts).Refines (.template head parts') := by
  intro scope v hv
  simp only [Expr.eval, bind_eq_ok_iff] at hv ⊢
  obtain ⟨s, hs, hv⟩ := hv
  exact ⟨s, h _ _ hs, hv⟩

/-- Parts of templates refine together if they do one by one. -/
lemma PartsRefine.of_forall₂ {parts parts' : List (Expr × String)}
    (h : List.Forall₂ (fun p p' => p.1.Refines p'.1 ∧ p.2 = p'.2) parts parts') :
    PartsRefine parts parts' := by
  induction h with
  | nil => exact fun _ _ h => h
  | @cons p p' _ _ hp _ ih =>
    obtain ⟨e, chunk⟩ := p
    obtain ⟨e', chunk'⟩ := p'
    obtain ⟨he, rfl⟩ := hp
    intro scope s hs
    simp only [evalParts, bind_eq_ok_iff] at hs ⊢
    obtain ⟨v, hv, tail, htail, hs⟩ := hs
    exact ⟨v, he _ _ hv, tail, ih _ _ htail, hs⟩

/-- No accesses refine to none. -/
lemma LinksRefine.nil : LinksRefine [] [] :=
  fun _ _ _ h => h

/-- Accesses refine with one more name in front. -/
lemma LinksRefine.named {links links' : List Link} (h : LinksRefine links links')
    (optional : Bool) (w : String) :
    LinksRefine (.named optional w :: links) (.named optional w :: links') := by
  intro scope reached r hr
  simp only [evalLinks, bind_eq_ok_iff] at hr ⊢
  obtain ⟨next, hnext, hr⟩ := hr
  exact ⟨next, hnext, h _ _ _ hr⟩

/-- Accesses refine with one more key in front if this does. -/
lemma LinksRefine.computed {links links' : List Link} (hkey : key.Refines key')
    (h : LinksRefine links links') (optional : Bool) :
    LinksRefine (.computed optional key :: links) (.computed optional key' :: links') := by
  intro scope reached r hr
  simp only [evalLinks, bind_eq_ok_iff] at hr ⊢
  obtain ⟨k, hk, next, hnext, hr⟩ := hr
  exact ⟨k, hkey _ _ hk, next, hnext, h _ _ _ hr⟩

/-- No properties refine to none. -/
lemma EntriesRefine.nil : EntriesRefine [] [] :=
  fun _ _ _ h => h

/-- Properties refine in two parts. -/
lemma EntriesRefine.append {parts parts' more more' : List Entry}
    (h : EntriesRefine parts parts') (hmore : EntriesRefine more more') :
    EntriesRefine (parts ++ more) (parts' ++ more') := by
  intro scope fields r hr
  rw [evalEntries_append, bind_eq_ok_iff] at hr ⊢
  obtain ⟨fields', hfields, hr⟩ := hr
  exact ⟨fields', h _ _ _ hfields, hmore _ _ _ hr⟩

/-- Properties of one name refine like their values. -/
lemma EntriesRefine.property (h : e.Refines e') (key : String) :
    EntriesRefine [.property key e] [.property key e'] := by
  intro scope fields r hr
  simp only [evalEntries, bind_eq_ok_iff] at hr ⊢
  obtain ⟨v, hv, hr⟩ := hr
  exact ⟨v, h _ _ hv, hr⟩

/-- Properties with keys refine like their keys and values. -/
lemma EntriesRefine.computed (hkey : key.Refines key') (h : e.Refines e') :
    EntriesRefine [.computed key e] [.computed key' e'] := by
  intro scope fields r hr
  simp only [evalEntries, bind_eq_ok_iff] at hr ⊢
  obtain ⟨k, hk, v, hv, hr⟩ := hr
  exact ⟨k, hkey _ _ hk, v, h _ _ hv, hr⟩

/-- Properties that are taken over refine like the expressions they are taken from. -/
lemma EntriesRefine.spread (h : e.Refines e') : EntriesRefine [.spread e] [.spread e'] := by
  intro scope fields r hr
  simp only [evalEntries, bind_eq_ok_iff] at hr ⊢
  obtain ⟨v, hv, hr⟩ := hr
  exact ⟨v, h _ _ hv, hr⟩

/-- No elements refine to none. -/
lemma ItemsRefine.nil : ItemsRefine [] [] :=
  fun _ _ h => h

/-- Elements refine in two parts. -/
lemma ItemsRefine.append {parts parts' more more' : List Item}
    (h : ItemsRefine parts parts') (hmore : ItemsRefine more more') :
    ItemsRefine (parts ++ more) (parts' ++ more') := by
  intro scope values hvalues
  simp only [evalItems_append, bind_eq_ok_iff] at hvalues ⊢
  obtain ⟨front, hfront, behind, hbehind, hvalues⟩ := hvalues
  exact ⟨front, h _ _ hfront, behind, hmore _ _ hbehind, hvalues⟩

/-- Elements refine like their expressions. -/
lemma ItemsRefine.value (h : e.Refines e') : ItemsRefine [.value e] [.value e'] := by
  intro scope values hvalues
  simp only [evalItems, bind_eq_ok_iff] at hvalues ⊢
  obtain ⟨v, hv, hvalues⟩ := hvalues
  exact ⟨v, h _ _ hv, hvalues⟩

/-- Elements that are taken over refine like the expressions they are taken from. -/
lemma ItemsRefine.spread (h : e.Refines e') : ItemsRefine [.spread e] [.spread e'] := by
  intro scope values hvalues
  simp only [evalItems, bind_eq_ok_iff] at hvalues ⊢
  obtain ⟨v, hv, hvalues⟩ := hvalues
  exact ⟨v, h _ _ hv, hvalues⟩

end Congruence

namespace Reader

/-- What a part is read as has the same values. -/
def Node.Refines : Node → Node → Prop
  | .expr e, .expr e' => e.Refines e'
  | .links ls, .links ls' => LinksRefine ls ls'
  | .entry part, .entry part' => EntriesRefine [part] [part']
  | .entries parts, .entries parts' => EntriesRefine parts parts'
  | .item part, .item part' => ItemsRefine [part] [part']
  | .items parts, .items parts' => ItemsRefine parts parts'
  | _, _ => False

end Reader

/-! ## Tokens that are alike -/

/-- The same stretch of a template, wherever it stands. -/
def Substitution.Alike (s s' : Substitution) : Prop :=
  ∃ i j, s.Twin i j s'

/-- The same token, wherever it stands. Line breaks in front of it count for words only. -/
structure Lexeme.Alike (t t' : Lexeme) : Prop where
  token : ∃ i j, t.token.Twin i j t'.token
  afterBreak : ∀ w, t.token = .word w → t'.afterBreak = t.afterBreak

/-- Every token is like itself. -/
lemma Token.Twin.refl (t : Token) : t.Twin 0 0 t := by
  have hsame : ∀ cs : List Glyph, Script.Twin 0 0 cs cs := fun cs =>
    List.forall₂_same.2 fun _ _ => ⟨rfl, rfl⟩
  cases t with
  | template head parts =>
    exact .template head (List.forall₂_same.2 fun _ _ => ⟨⟨hsame _, rfl⟩, rfl⟩)
  | _ => exact .same _ nofun

/-- A token that stands in two texts is alike in both. -/
lemma Lexeme.Twin.alike {i j : Nat} {t t' : Lexeme} (h : t.Twin i j t') : t.Alike t' :=
  ⟨⟨i, j, h.token⟩, fun _ _ => h.afterBreak⟩

namespace Lexeme.Alike

variable {t t' : Lexeme}

/-- A token that is no template is the same token. -/
lemma token_eq (h : t.Alike t') (ht : ∀ head parts, t.token ≠ .template head parts) :
    t'.token = t.token := by
  obtain ⟨i, j, h⟩ := h.token
  generalize t.token = u, t'.token = u' at *
  cases h with
  | same => rfl
  | template head => exact absurd rfl (ht head _)

/-- A token like a word is this word. -/
lemma word (h : t.Alike t') {w : String} (ht : t.token = .word w) : t'.token = .word w := by
  rw [h.token_eq (by simp [ht]), ht]

/-- A token like a sign is this sign. -/
lemma sign (h : t.Alike t') {s : Sign} (ht : t.token = .sign s) : t'.token = .sign s := by
  rw [h.token_eq (by simp [ht]), ht]

/-- A sign is the same sign. -/
lemma isPunct_iff (h : t.Alike t') (c : Char) :
    Reader.IsPunct c t' ↔ Reader.IsPunct c t := by
  obtain ⟨i, j, h⟩ := h.token
  unfold Reader.IsPunct
  generalize t.token = u, t'.token = u' at *
  cases h with
  | same => rfl
  | template head => simp

/-- A word is the same word. -/
lemma word_iff (h : t.Alike t') (w : String) : t'.token = .word w ↔ t.token = .word w := by
  obtain ⟨i, j, h⟩ := h.token
  generalize t.token = u, t'.token = u' at *
  cases h with
  | same => rfl
  | template head => simp

end Lexeme.Alike

/-- Tokens that are alike in front of lists are the same signs there. -/
lemma Reader.atSign_of_alike {t t' : Lexeme} (h : t.Alike t') (c : Char) (ts ts' : List Lexeme) :
    atSign c (t' :: ts') = atSign c (t :: ts) := by
  rw [Bool.eq_iff_iff, atSign_cons_iff, atSign_cons_iff]
  exact h.isPunct_iff c

namespace Reader

variable {inner inner' : Substitution → Expr}

/-- **Tokens that are alike stand for the same values**, if the stretches of templates do. -/
theorem atom?_of_alike (hinner : ∀ s s', s.Alike s' → (inner s).Refines (inner' s'))
    {t t' : Lexeme} (h : t.Alike t') {e : Expr} (ht : atom? inner t.token = some e) :
    ∃ e', atom? inner' t'.token = some e' ∧ e.Refines e' := by
  obtain ⟨i, j, h⟩ := h.token
  generalize t.token = u, t'.token = u' at *
  cases h with
  | same u hu =>
    refine ⟨e, ?_, .refl e⟩
    cases u with
    | template head parts => exact absurd rfl (hu head parts)
    | _ => exact ht
  | @template head parts parts' hparts =>
    obtain rfl := Option.some.inj ht
    refine ⟨_, rfl, .template (.of_forall₂ ?_) head⟩
    rw [List.forall₂_map_left_iff, List.forall₂_map_right_iff]
    exact hparts.imp fun _ _ hp => ⟨hinner _ _ ⟨i, j, hp.1⟩, hp.2⟩

/-- A token that names a property names the same one elsewhere. -/
lemma literalKey?_of_alike {t t' : Lexeme} (h : t.Alike t') {key : String}
    (ht : literalKey? t.token = some key) : literalKey? t'.token = some key := by
  rw [h.token_eq, ht]
  rintro head parts htoken
  rw [htoken] at ht
  cases ht

end Reader

end CardTable.Script
