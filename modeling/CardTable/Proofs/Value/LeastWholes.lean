import CardTable.Proofs.Value.FieldLaws
import CardTable.Proofs.Script.Grammar.Rules
import CardTable.Proofs.Json.NestedTexts

set_option autoImplicit false

/-!
# Values without the least whole number

The least whole number of a signed 64-bit word is the only one that cannot be negated in the word.
No step of an evaluation puts it into a value: where none of the values in scope holds it, at any
depth, no value that is reached from them does.

## Main definitions

* `CardTable.Script.leastWhole` — the least whole number of a signed 64-bit word.
* `CardTable.Script.Spares` — a value that does not hold it, if that is asked for.

## Main results

* `CardTable.Script.spares_negate?` — negating a number does not lead to it.
* `CardTable.Script.spares_access` — no access leads to it.
-/

namespace CardTable.Script

/-- The least whole number of a signed 64-bit word. -/
def leastWhole : Value :=
  .num (.ofInt (-9223372036854775808))

/-- If `asked`, the value does not hold the least whole number at any depth. -/
def Spares (asked : Bool) (v : Value) : Prop :=
  asked = true → ¬ leastWhole.IsPart v

/-- The same of a value or of `undefined`. -/
def Spares? (asked : Bool) (v : Option Value) : Prop :=
  ∀ w ∈ v, Spares asked w

section Spares

variable {asked : Bool} {v : Option Value} {items : List Value} {fields more : Fields Value}

/-! ## Constructors -/

/-- Null holds no number. -/
lemma spares_null : Spares asked .null := by
  rintro - ⟨⟩

/-- A truth value holds no number. -/
lemma spares_bool (b : Bool) : Spares asked (.bool b) := by
  rintro - ⟨⟩

/-- A text holds no number. -/
lemma spares_str (s : String) : Spares asked (.str s) := by
  rintro - ⟨⟩

/-- A number is the least one, or it spares it. -/
lemma spares_num {n : Number} (h : asked = true → n ≠ .ofInt (-9223372036854775808)) :
    Spares asked (.num n) := by
  rintro hasked ⟨⟩
  exact h hasked rfl

/-- A double is not the least whole number. -/
lemma spares_double (x : Double) : Spares asked (.num (.double x)) :=
  spares_num fun _ => nofun

/-- All other whole numbers spare the least one. -/
lemma spares_ofInt {n : Int} (h : n ≠ -9223372036854775808) : Spares asked (.num (.ofInt n)) := by
  refine spares_num fun _ heq => h ?_
  unfold Number.ofInt at heq
  rw [dif_pos (show Wide (-9223372036854775808) by decide)] at heq
  split at heq
  · exact (Number.whole.inj heq)
  · cases heq

/-- A list spares it if all its elements do. -/
lemma spares_list : Spares asked (.list items) ↔ ∀ item ∈ items, Spares asked item := by
  constructor
  · exact fun h item hitem hasked hpart => h hasked (.item hitem hpart)
  · rintro h hasked (_ | ⟨hitem, hpart⟩)
    exact h _ hitem hasked hpart

/-- A mapping spares it if all its fields do. -/
lemma spares_mapping :
    Spares asked (.mapping fields) ↔ ∀ field ∈ fields, Spares asked field.2 := by
  constructor
  · exact fun h field hfield hasked hpart => h hasked (.field hfield hpart)
  · rintro h hasked (_ | _ | ⟨hfield, hpart⟩)
    exact h _ hfield hasked hpart

/-- A value that is there spares it or not. -/
lemma spares?_some {w : Value} : Spares? asked (some w) ↔ Spares asked w := by
  simp [Spares?]

/-- Where there is no value, there is no number. -/
lemma spares?_none : Spares? asked none :=
  nofun

/-! ## Numbers -/

/-- The value of a double is not the least whole number. -/
lemma spares_numberValue (x : Option Double) : Spares asked (numberValue x) := by
  unfold numberValue
  split
  · exact spares_null
  split
  · split
    · next hsmall =>
      have hmax : maxSafe = 9007199254740991 := rfl
      exact spares_ofInt (by omega)
    · exact spares_double _
  · exact spares_double _

/-- **Negating** a number does not lead to the least one. -/
theorem spares_negate? {n : Number} {w : Value} (h : negate? n = some w) : Spares asked w := by
  cases hn : n.signed? with
  | some i =>
    have hsigned : Signed i := by
      cases n with
      | double => cases hn
      | whole m _ =>
        simp only [Number.signed?, Option.ite_none_right_eq_some, Option.some.injEq] at hn
        exact hn.2 ▸ hn.1
    have hleast : i ≠ -9223372036854775808 := by
      rintro rfl
      cases (negate?_eq_none_iff.2 hn).symm.trans h
    obtain rfl := Option.some.inj ((negate?_of_signed hn hleast).symm.trans h)
    exact spares_ofInt (by omega)
  | none =>
    rw [negate?, hn] at h
    obtain rfl := Option.some.inj h
    exact spares_numberValue _

/-- A number whose word is the least whole number is that number. -/
lemma eq_of_signed? {n : Number} (h : n.signed? = some (-9223372036854775808)) :
    Value.num n = leastWhole := by
  cases n with
  | double => cases h
  | whole m hm =>
    simp only [Number.signed?, Option.ite_none_right_eq_some, Option.some.injEq] at h
    obtain ⟨-, rfl⟩ := h
    rfl

/-! ## Parts of values -/

/-- The characters of a text hold no numbers. -/
lemma spares_charTexts (s : String) : ∀ item ∈ charTexts s, Spares asked item := by
  intro item hitem
  obtain ⟨c, -, rfl⟩ := List.mem_map.1 hitem
  exact spares_str _

/-- A property of a value. -/
lemma spares_member {key : String} {w : Option Value} (hv : Spares? asked v)
    (h : member v key = .ok w) : Spares? asked w := by
  have hposition : ∀ {items : List Value}, (∀ item ∈ items, Spares asked item) →
      Spares? asked ((positionOf? key).bind (items[·]?)) := by
    intro items hitems u hu
    obtain ⟨i, -, hi⟩ := Option.bind_eq_some_iff.1 hu
    exact hitems u (List.mem_of_getElem? hi)
  unfold member at h
  split at h
  · obtain rfl := Except.ok.inj h
    exact fun u hu => spares_mapping.1 (hv _ rfl) _ (Fields.mem_of_get? hu)
  · split at h
    · obtain rfl := Except.ok.inj h
      exact spares?_some.2 (spares_ofInt (by omega))
    · obtain rfl := Except.ok.inj h
      exact hposition (spares_list.1 (hv _ rfl))
  · split at h
    · obtain rfl := Except.ok.inj h
      exact spares?_some.2 (spares_ofInt (by omega))
    · obtain rfl := Except.ok.inj h
      exact hposition (spares_charTexts _)
  · cases h
  · cases h
  · obtain rfl := Except.ok.inj h
    exact spares?_none

/-- **An access** does not lead to the least whole number. -/
theorem spares_access {optional : Bool} {key : String} {reached next : Reached}
    (hreached : ∀ v ∈ reached, Spares? asked v) (h : access optional key reached = .ok next) :
    ∀ v ∈ next, Spares? asked v := by
  unfold access at h
  split at h
  · obtain rfl := Except.ok.inj h
    exact nofun
  · split at h
    · obtain rfl := Except.ok.inj h
      exact nofun
    · obtain ⟨w, hw, rfl⟩ := map_eq_ok_iff.1 h
      rintro _ ⟨⟩
      exact spares_member (hreached _ rfl) hw

/-- Elements that are taken over from a value spare it with the value. -/
lemma spares_spreadItems (hv : Spares? asked v) (h : spreadItems v = .ok items) :
    ∀ item ∈ items, Spares asked item := by
  unfold spreadItems at h
  split at h
  · obtain rfl := Except.ok.inj h
    exact spares_list.1 (hv _ rfl)
  · obtain rfl := Except.ok.inj h
    exact spares_charTexts _
  · cases h

/-- Elements that are numbered spare it as fields. -/
lemma spares_positioned (h : ∀ item ∈ items, Spares asked item) :
    ∀ field ∈ positioned items, Spares asked field.2 := by
  intro field hfield
  obtain ⟨⟨item, n⟩, hmem, rfl⟩ := List.mem_map.1 hfield
  exact h item (List.fst_mem_of_mem_zipIdx hmem)

/-- Fields that are taken over from a value spare it with the value. -/
lemma spares_spreadFields (hv : Spares? asked v) :
    ∀ field ∈ spreadFields v, Spares asked field.2 := by
  unfold spreadFields
  split
  · exact spares_mapping.1 (hv _ rfl)
  · exact spares_positioned (spares_list.1 (hv _ rfl))
  · exact spares_positioned (spares_charTexts _)
  · exact nofun

/-! ## Fields -/

/-- A field that is set to a value which spares it. -/
lemma spares_setProperty (h : ∀ field ∈ fields, Spares asked field.2) (key : String)
    (hv : Spares? asked v) : ∀ field ∈ setProperty fields key v, Spares asked field.2 := by
  intro field hfield
  cases v with
  | none => exact h field (List.mem_filter.1 hfield).1
  | some w =>
    rcases Fields.mem_insert hfield with hfield | rfl
    · exact h field hfield
    · exact hv w rfl

/-- Fields that are set to values which spare it. -/
lemma spares_insertAll (h : ∀ field ∈ fields, Spares asked field.2)
    (hmore : ∀ field ∈ more, Spares asked field.2) :
    ∀ field ∈ Fields.insertAll fields more, Spares asked field.2 :=
  fun field hfield => (Fields.mem_insertAll hfield).elim (h field) (hmore field)

/-- The order of the fields does not matter. -/
lemma spares_sortKeys (h : ∀ field ∈ fields, Spares asked field.2) :
    Spares asked (.mapping (sortKeys fields)) :=
  spares_mapping.2 fun field hfield => h field ((sortKeys_perm fields).mem_iff.1 hfield)

/-! ## Scopes -/

/-- No value in scope holds the least whole number, if that is asked for. -/
def Scope.Spares (asked : Bool) (scope : Scope) : Prop :=
  ∀ field ∈ scope, Spares? asked field.2

variable {scope : Scope}

/-- A name stands for a value that spares it, in a scope that does. -/
lemma spares_lookup (hscope : Scope.Spares asked scope) {w : String}
    (h : lookup scope w = .ok v) : Spares? asked v := by
  unfold lookup at h
  split at h
  · next hget =>
    obtain rfl := Except.ok.inj h
    exact hscope _ (Fields.mem_of_get? hget)
  · cases h

/-- A name that is bound to a value which spares it. -/
lemma Scope.Spares.insert (hscope : Scope.Spares asked scope) (name : String)
    (hv : Spares? asked v) : Scope.Spares asked (Fields.insert scope name v) := by
  intro field hfield
  rcases Fields.mem_insert hfield with hfield | rfl
  · exact hscope field hfield
  · exact hv

/-- The scope of bindings that spare the least whole number. -/
lemma spares_scopeOf {bindings : List (String × Value)}
    (h : ∀ binding ∈ bindings, Spares asked binding.2) : Scope.Spares asked (scopeOf bindings) := by
  intro field hfield
  rcases Fields.mem_insertAll hfield with hfield | hfield
  · cases hfield
  · obtain ⟨binding, hbinding, rfl⟩ := List.mem_map.1 hfield
    exact spares?_some.2 (h binding hbinding)

/-- The value of a word that stands for one. -/
lemma spares_wordConstant? {w : String} (h : Reader.wordConstant? w = some v) :
    Spares? asked v := by
  unfold Reader.wordConstant? at h
  split at h
  · obtain rfl := Option.some.inj h
    exact spares?_some.2 (spares_bool true)
  split at h
  · obtain rfl := Option.some.inj h
    exact spares?_some.2 (spares_bool false)
  split at h
  · obtain rfl := Option.some.inj h
    exact spares?_some.2 spares_null
  split at h
  · obtain rfl := Option.some.inj h
    exact spares?_none
  · cases h

end Spares

end CardTable.Script
