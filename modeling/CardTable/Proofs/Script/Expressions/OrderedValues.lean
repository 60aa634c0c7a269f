import CardTable.Proofs.Script.Expressions.KeyOrder
import CardTable.Proofs.Script.Grammar.Statements

set_option autoImplicit false

/-!
# Bodies have ordered values

Every mapping in the value of a body is listed in the order of its keys if those in its bindings
are. The readers give trees by rules, so that this is shown for what each rule reads, then for what
stands behind one statement, and from it for all statements of a body.

## Main definitions

* `CardTable.Script.Reader.Node.KeepsOrder` — what is read has ordered values.
* `CardTable.Script.KeepsOrder` — statements that end in ordered values.

## Main results

* `CardTable.Script.Reader.Reads.keepsOrder` — what is read has ordered values in ordered scopes.
* `CardTable.Script.Reader.keepsOrder_statements` — statements end in ordered values.
* `CardTable.Script.evaluate_isOrdered` — bodies have ordered values.
-/

namespace CardTable

namespace Script

/-! ## Expressions -/

namespace Reader

/-- What is read as this node has ordered values in the scope. -/
def Node.KeepsOrder (scope : Scope) : Node → Prop
  | .expr e => ∀ v, e.eval scope = .ok v → IsOrdered? v
  | .links ls => ∀ reached next, (∀ v ∈ reached, IsOrdered? v) →
    evalLinks scope reached ls = .ok next → ∀ v ∈ next, IsOrdered? v
  | .entry part => ∀ fields fields', IsCollected fields →
    evalEntries scope fields [part] = .ok fields' → IsCollected fields'
  | .entries parts => ∀ fields fields', IsCollected fields →
    evalEntries scope fields parts = .ok fields' → IsCollected fields'
  | .item part => ∀ values, evalItems scope [part] = .ok values → ∀ item ∈ values, item.IsOrdered
  | .items parts => ∀ values, evalItems scope parts = .ok values → ∀ item ∈ values, item.IsOrdered

section KeepsOrder

variable {scope : Scope} {inner : Substitution → Expr} {e key : Expr}

/-- A literal or a word that stands for a value. -/
lemma keepsOrder_atom {t : Token} (ht : atom? inner t = some e) :
    (Node.expr e).KeepsOrder scope := by
  intro v hv
  cases t with
  | number x =>
    obtain rfl := Option.some.inj ht
    rw [Expr.eval] at hv
    obtain rfl := Except.ok.inj hv
    exact isOrdered?_some.2 (isOrdered_numberValue x)
  | text s =>
    obtain rfl := Option.some.inj ht
    rw [Expr.eval] at hv
    obtain rfl := Except.ok.inj hv
    exact isOrdered?_some.2 (.str s)
  | template head parts =>
    obtain rfl := Option.some.inj ht
    simp only [Expr.eval, bind_eq_ok_iff] at hv
    obtain ⟨tail, -, hv⟩ := hv
    obtain rfl := Except.ok.inj hv
    exact isOrdered?_some.2 (.str _)
  | word w =>
    obtain ⟨u, hu, rfl⟩ := Option.map_eq_some_iff.1 ht
    rw [Expr.eval] at hv
    obtain rfl := Except.ok.inj hv
    unfold wordConstant? at hu
    split at hu
    · obtain rfl := Option.some.inj hu
      exact isOrdered?_some.2 (.bool true)
    split at hu
    · obtain rfl := Option.some.inj hu
      exact isOrdered?_some.2 (.bool false)
    split at hu
    · obtain rfl := Option.some.inj hu
      exact isOrdered?_some.2 .null
    split at hu
    · obtain rfl := Option.some.inj hu
      exact isOrdered?_none
    · cases hu
  | sign => cases ht

/-- A sign in front of an operand. -/
lemma keepsOrder_signed (negative : Bool) (e : Expr) :
    (Node.expr (.signed negative e)).KeepsOrder scope := by
  intro v hv
  simp only [Expr.eval, bind_eq_ok_iff] at hv
  obtain ⟨_, -, hv⟩ := hv
  exact isOrdered?_applySign hv

/-- A word that names a value in scope. -/
lemma keepsOrder_name (hscope : scope.IsOrdered) (word : String) :
    (Node.expr (.name word)).KeepsOrder scope := by
  intro v hv
  rw [Expr.eval] at hv
  exact isOrdered?_lookup hscope hv

/-- Accesses to an ordered value. -/
lemma keepsOrder_linked {ls : List Link} (he : (Node.expr e).KeepsOrder scope)
    (hlinks : (Node.links ls).KeepsOrder scope) : (Node.expr (linked e ls)).KeepsOrder scope := by
  intro v hv
  simp only [eval_linked, Expr.eval, bind_eq_ok_iff] at hv
  obtain ⟨base, hbase, reached, hreached, hv⟩ := hv
  obtain rfl := Except.ok.inj hv
  have hlast := hlinks _ _ (by simpa using he base hbase) hreached
  cases reached with
  | none => exact isOrdered?_none
  | some w => exact hlast w rfl

/-- No access. -/
lemma keepsOrder_noLinks : (Node.links []).KeepsOrder scope := by
  intro reached next hreached h
  rw [evalLinks] at h
  obtain rfl := Except.ok.inj h
  exact hreached

/-- An access by a name, and those behind it. -/
lemma keepsOrder_named {ls : List Link} (hlinks : (Node.links ls).KeepsOrder scope)
    (optional : Bool) (word : String) :
    (Node.links (.named optional word :: ls)).KeepsOrder scope := by
  intro reached last hreached h
  simp only [evalLinks, bind_eq_ok_iff] at h
  obtain ⟨next, hnext, hlast⟩ := h
  exact hlinks _ _ (isOrdered?_access hreached hnext) hlast

/-- An access by a computed name, and those behind it. -/
lemma keepsOrder_computed {ls : List Link} (hlinks : (Node.links ls).KeepsOrder scope)
    (optional : Bool) : (Node.links (.computed optional key :: ls)).KeepsOrder scope := by
  intro reached last hreached h
  simp only [evalLinks, bind_eq_ok_iff] at h
  obtain ⟨_, -, next, hnext, hlast⟩ := h
  exact hlinks _ _ (isOrdered?_access hreached hnext) hlast

/-- An object literal, which orders its fields. -/
lemma keepsOrder_object {parts : List Entry} (h : (Node.entries parts).KeepsOrder scope) :
    (Node.expr (.object parts)).KeepsOrder scope := by
  intro v hv
  simp only [Expr.eval, bind_eq_ok_iff] at hv
  obtain ⟨fields, hfields, hv⟩ := hv
  obtain rfl := Except.ok.inj hv
  exact isOrdered?_some.2 (h _ _ .nil hfields).isOrdered

/-- A property with its value. -/
lemma keepsOrder_property (name : String) (he : (Node.expr e).KeepsOrder scope) :
    (Node.entry (.property name e)).KeepsOrder scope := by
  intro fields last hfields h
  simp only [evalEntries, bind_eq_ok_iff] at h
  obtain ⟨v, hv, h⟩ := h
  obtain rfl := Except.ok.inj h
  exact hfields.setProperty _ (he v hv)

/-- A property with a computed name. -/
lemma keepsOrder_computedProperty (he : (Node.expr e).KeepsOrder scope) :
    (Node.entry (.computed key e)).KeepsOrder scope := by
  intro fields last hfields h
  simp only [evalEntries, bind_eq_ok_iff] at h
  obtain ⟨_, -, v, hv, h⟩ := h
  obtain rfl := Except.ok.inj h
  exact hfields.setProperty _ (he v hv)

/-- A property that is named like its value in scope. -/
lemma keepsOrder_shorthand (hscope : scope.IsOrdered) (word : String) :
    (Node.entry (.shorthand word)).KeepsOrder scope := by
  intro fields last hfields h
  simp only [evalEntries, bind_eq_ok_iff] at h
  obtain ⟨v, hv, h⟩ := h
  obtain rfl := Except.ok.inj h
  exact hfields.setProperty _ (isOrdered?_lookup hscope hv)

/-- All properties of a value. -/
lemma keepsOrder_spreadEntry (he : (Node.expr e).KeepsOrder scope) :
    (Node.entry (.spread e)).KeepsOrder scope := by
  intro fields last hfields h
  simp only [evalEntries, bind_eq_ok_iff] at h
  obtain ⟨v, hv, h⟩ := h
  obtain rfl := Except.ok.inj h
  exact hfields.insertAll (isOrdered_spreadFields (he v hv))

/-- No part of an object literal. -/
lemma keepsOrder_noEntries : (Node.entries []).KeepsOrder scope := by
  intro fields last hfields h
  rw [evalEntries] at h
  obtain rfl := Except.ok.inj h
  exact hfields

/-- A part of an object literal, and those behind it. -/
lemma keepsOrder_entries {part : Entry} {parts : List Entry}
    (hpart : (Node.entry part).KeepsOrder scope) (hparts : (Node.entries parts).KeepsOrder scope) :
    (Node.entries (part :: parts)).KeepsOrder scope := by
  intro fields last hfields h
  rw [← List.singleton_append, evalEntries_append, bind_eq_ok_iff] at h
  obtain ⟨next, hnext, hlast⟩ := h
  exact hparts _ _ (hpart _ _ hfields hnext) hlast

/-- An array literal. -/
lemma keepsOrder_array {parts : List Item} (h : (Node.items parts).KeepsOrder scope) :
    (Node.expr (.array parts)).KeepsOrder scope := by
  intro v hv
  simp only [Expr.eval, bind_eq_ok_iff] at hv
  obtain ⟨values, hvalues, hv⟩ := hv
  obtain rfl := Except.ok.inj hv
  exact isOrdered?_some.2 (.list (h _ hvalues))

/-- An item that is left out, which is null. -/
lemma keepsOrder_hole : (Node.item .hole).KeepsOrder scope := by
  intro values h
  simp only [evalItems, bind_eq_ok_iff] at h
  obtain ⟨more, hmore, h⟩ := h
  obtain rfl := Except.ok.inj hmore
  obtain rfl := Except.ok.inj h
  intro item hitem
  obtain rfl := List.mem_singleton.1 hitem
  exact .null

/-- An item with its value. -/
lemma keepsOrder_valueItem (he : (Node.expr e).KeepsOrder scope) :
    (Node.item (.value e)).KeepsOrder scope := by
  intro values h
  simp only [evalItems, bind_eq_ok_iff] at h
  obtain ⟨v, hv, more, hmore, h⟩ := h
  obtain rfl := Except.ok.inj hmore
  obtain rfl := Except.ok.inj h
  intro item hitem
  obtain rfl := List.mem_singleton.1 hitem
  exact isOrdered_getD (he v hv)

/-- All items of a value. -/
lemma keepsOrder_spreadItem (he : (Node.expr e).KeepsOrder scope) :
    (Node.item (.spread e)).KeepsOrder scope := by
  intro values h
  simp only [evalItems, bind_eq_ok_iff] at h
  obtain ⟨v, hv, items, hitems, more, hmore, h⟩ := h
  obtain rfl := Except.ok.inj hmore
  obtain rfl := Except.ok.inj h
  rw [List.append_nil]
  exact isOrdered_spreadItems (he v hv) hitems

/-- No part of an array literal. -/
lemma keepsOrder_noItems : (Node.items []).KeepsOrder scope := by
  intro values h
  rw [evalItems] at h
  obtain rfl := Except.ok.inj h
  intro item hitem
  cases hitem

/-- A part of an array literal, and those behind it. -/
lemma keepsOrder_items {part : Item} {parts : List Item}
    (hpart : (Node.item part).KeepsOrder scope) (hparts : (Node.items parts).KeepsOrder scope) :
    (Node.items (part :: parts)).KeepsOrder scope := by
  intro values h
  rw [← List.singleton_append, evalItems_append] at h
  simp only [bind_eq_ok_iff] at h
  obtain ⟨first, hfirst, more, hmore, h⟩ := h
  obtain rfl := Except.ok.inj h
  intro item hitem
  exact (List.mem_append.1 hitem).elim (hpart _ hfirst item) (hparts _ hmore item)

/-- **What is read** has ordered values in a scope of ordered values.

**Proof sketch.** Induction on the rules, with one lemma for each form of the tree. Object literals
collect fields with distinct names and order them at the end, so entries are asked for what they
keep of the fields collected before them. -/
theorem Reads.keepsOrder (hscope : scope.IsOrdered) {part : Part} {ts us : List Lexeme}
    {node : Node} (h : Reads inner part ts node us) : node.KeepsOrder scope := by
  induction h with
  | expression _ _ ih => exact ih
  | signed negative => exact keepsOrder_signed negative _
  | plain _ _ ihprimary ihlinks => exact keepsOrder_linked ihprimary ihlinks
  | linksEnd => exact keepsOrder_noLinks
  | named optional _ _ _ ih => exact keepsOrder_named ih optional _
  | computed _ _ _ _ ih => exact keepsOrder_computed ih false
  | optionalComputed _ _ _ _ _ ih => exact keepsOrder_computed ih true
  | nonNull _ _ _ ih => exact ih
  | index _ _ ih => exact ih
  | atom ht => exact keepsOrder_atom ht
  | name => exact keepsOrder_name hscope _
  | bracketed _ _ _ ih => exact ih
  | object _ _ ih => exact keepsOrder_object ih
  | array _ _ ih => exact keepsOrder_array ih
  | propertyValue _ _ ih => exact ih
  | spreadEntry _ _ ih => exact keepsOrder_spreadEntry ih
  | shorthand => exact keepsOrder_shorthand hscope _
  | property _ _ ih => exact keepsOrder_property _ ih
  | computedProperty _ _ _ _ ih => exact keepsOrder_computedProperty ih
  | noEntry => exact keepsOrder_noEntries
  | moreEntries _ _ _ ihentry ihentries => exact keepsOrder_entries ihentry ihentries
  | lastEntry _ _ ih => exact keepsOrder_entries ih keepsOrder_noEntries
  | spreadItem _ _ ih => exact keepsOrder_spreadItem ih
  | valueItem _ ih => exact keepsOrder_valueItem ih
  | noItem => exact keepsOrder_noItems
  | hole _ _ ih => exact keepsOrder_items keepsOrder_hole ih
  | moreItems _ _ _ ihitem ihitems => exact keepsOrder_items ihitem ihitems
  | lastItem _ _ ih => exact keepsOrder_items ih keepsOrder_noItems

/-- What is read as an expression has ordered values. -/
lemma isOrdered?_expression (fin : TextEnd) (inner : Substitution → Expr) (ts : List Lexeme)
    (scope : Scope) (v : Option Value) (hscope : scope.IsOrdered)
    (h : (expression fin inner ts).tree.eval scope = .ok v) : IsOrdered? v := by
  obtain ⟨us, hreads⟩ := exists_reads_of_eval fin inner h
  exact hreads.keepsOrder hscope v h

end KeepsOrder

end Reader

/-! ## Statements -/

/-- The statements end in ordered values in scopes of ordered values. -/
def KeepsOrder (ss : List Statement) : Prop :=
  ∀ scope v, scope.IsOrdered → run scope ss = .ok v → IsOrdered? v

/-- A value comes into scope. -/
lemma Scope.IsOrdered.insert {scope : Scope} (hscope : scope.IsOrdered) (name : String)
    {v : Option Value} (hv : IsOrdered? v) : Scope.IsOrdered (Fields.insert scope name v) := by
  intro field hfield
  rcases Fields.mem_insert hfield with hfield | rfl
  · exact hscope field hfield
  · exact hv

namespace KeepsOrder

variable {e : Expr} {ss : List Statement}

/-- Statements that end in no value. -/
lemma of_fails (h : StatementsFail ss) : KeepsOrder ss :=
  fun scope v _ hv => absurd hv (h scope v)

/-- No statements. -/
lemma nil : KeepsOrder [] := by
  intro scope v _ hv
  obtain rfl := Except.ok.inj hv
  exact isOrdered?_none

variable (he : ∀ scope v, scope.IsOrdered → e.eval scope = .ok v → IsOrdered? v)
include he

/-- A value is returned. -/
lemma result (ss : List Statement) : KeepsOrder (.result e :: ss) :=
  he

/-- A name is declared. -/
lemma declare (name : String) (hss : KeepsOrder ss) : KeepsOrder (.declare name e :: ss) := by
  intro scope v hscope hv
  rw [run, bind_eq_ok_iff] at hv
  obtain ⟨w, hw, hv⟩ := hv
  exact hss _ _ (hscope.insert name (he _ _ hscope hw)) hv

omit he in
/-- An expression is evaluated. -/
lemma evaluate (e : Expr) (hss : KeepsOrder ss) : KeepsOrder (.evaluate e :: ss) := by
  intro scope v hscope hv
  rw [run, bind_eq_ok_iff] at hv
  obtain ⟨-, -, hv⟩ := hv
  exact hss _ _ hscope hv

end KeepsOrder

namespace Reader

section Statements

variable {fin : TextEnd} {inner : Substitution → Expr} {ts : List Lexeme} {n : Nat}

/-- `undefined` is ordered. -/
lemma isOrdered?_constant_none (scope : Scope) (v : Option Value) (_ : scope.IsOrdered)
    (h : (Expr.constant none).eval scope = .ok v) : IsOrdered? v := by
  rw [Expr.eval] at h
  obtain rfl := Except.ok.inj h
  exact isOrdered?_none

section Step

variable (ih : ∀ us : List Lexeme, us.length < n → KeepsOrder (statements fin inner us))
include ih

/-- What stands behind a statement. -/
lemma keepsOrder_statementEnd (hn : ts.length < n) : KeepsOrder (statementEnd fin inner ts) := by
  cases ts with
  | nil =>
    rw [statementEnd]
    exact .nil
  | cons t rest =>
    by_cases ht : IsPunct ';' t
    · rw [statementEnd_of_semicolon ht]
      exact ih _ (Nat.lt_of_succ_lt hn)
    rw [statementEnd_of_not_semicolon ht]
    split
    · exact ih _ hn
    · exact .of_fails (statementsFail_cut _ _)

/-- An expression statement. -/
lemma keepsOrder_expressionStatement (hn : ts.length ≤ n) :
    KeepsOrder (expressionStatement fin inner ts) := by
  rw [expressionStatement]
  split
  · exact .evaluate _ .nil
  · next hshort _ => exact .evaluate _ (keepsOrder_statementEnd ih (Nat.lt_of_lt_of_le hshort hn))

/-- Declarations. -/
lemma keepsOrder_declarations (hn : ts.length < n) : KeepsOrder (declarations fin inner ts) := by
  induction hlength : ts.length using Nat.strongRecOn generalizing ts with
  | _ length more =>
  subst hlength
  -- what stands behind a declared name
  have hbehind : ∀ us : List Lexeme, us.length < ts.length →
      KeepsOrder (declarationEnd fin inner us) := by
    intro us hus
    cases hcomma : atSign ',' us with
    | true =>
      obtain ⟨t, rest, rfl, ht⟩ := exists_of_atSign hcomma
      have hrest := Nat.lt_of_succ_lt hus
      rw [declarationEnd_of_comma ht]
      exact more _ hrest (Nat.lt_trans hrest hn) rfl
    | false =>
      rw [declarationEnd_of_not_comma hcomma]
      exact keepsOrder_statementEnd ih (Nat.lt_trans hus hn)
  cases ts with
  | nil =>
    rw [declarations]
    exact .of_fails (statementsFail_cut _ _)
  | cons name rest =>
    by_cases hword : ∃ w, name.token = .word w
    swap
    · exact .of_fails (declarations_fails (not_exists.1 hword) rest)
    obtain ⟨w, hname⟩ := hword
    have hskip := Nat.lt_succ_of_le (length_skipDeclaredType_le rest)
    cases hequals : atSign '=' (skipDeclaredType rest) with
    | false =>
      rw [declarations_of_no_value hname hequals]
      exact .declare isOrdered?_constant_none _ (hbehind _ hskip)
    | true =>
      have hvalue := isOrdered?_expression fin inner (skipDeclaredType rest).tail
      cases hr : expression fin inner (skipDeclaredType rest).tail with
      | cut e =>
        rw [hr] at hvalue
        rw [declarations_of_cut hname hequals hr]
        exact .declare hvalue _ .nil
      | whole e us hshort =>
        rw [hr] at hvalue
        rw [declarations_of_whole hname hequals ⟨hshort, hr⟩]
        refine .declare hvalue _ (hbehind _ ?_)
        simp only [List.length_tail, List.length_cons] at hshort hskip ⊢
        omega

end Step

/-- **Statements** end in ordered values.

**Proof sketch.** Strong induction on the number of tokens, by the kind of the first statement. Its
expression has an ordered value, so the scope behind a declaration holds ordered values again. -/
theorem keepsOrder_statements (fin : TextEnd) (inner : Substitution → Expr) (ts : List Lexeme) :
    KeepsOrder (statements fin inner ts) := by
  induction hn : ts.length using Nat.strongRecOn generalizing ts with
  | _ n ih =>
  subst hn
  have ih' : ∀ us : List Lexeme, us.length < ts.length → KeepsOrder (statements fin inner us) :=
    fun us hus => ih _ hus us rfl
  cases ts with
  | nil =>
    rw [statements]
    exact .nil
  | cons t rest =>
    have hrest := ih' rest (Nat.lt_succ_self _)
    have hexpression := keepsOrder_expressionStatement ih' le_rfl
    by_cases hsemicolon : IsPunct ';' t
    · rw [statements_of_semicolon hsemicolon]
      exact hrest
    by_cases hword : ∃ w, t.token = .word w
    swap
    · rw [statements_of_not_word hsemicolon (not_exists.1 hword)]
      exact hexpression
    obtain ⟨w, hw⟩ := hword
    rw [statements_of_word hw]
    split
    · exact keepsOrder_declarations ih' (Nat.lt_succ_self _)
    split
    · split
      · exact .result isOrdered?_constant_none _
      · exact .result (isOrdered?_expression fin inner rest) _
    split
    · split
      · exact hrest
      · exact .of_fails (statementsFail_cut _ _)
    split
    · exact .of_fails (statementsFail_cut _ _)
    · exact hexpression

end Statements

end Reader

/-! ## Bodies -/

/-- The scope of bindings to ordered values. -/
lemma isOrdered_scopeOf {bindings : List (String × Value)}
    (h : ∀ binding ∈ bindings, binding.2.IsOrdered) : (scopeOf bindings).IsOrdered := by
  intro field hfield
  rcases Fields.mem_insertAll hfield with hfield | hfield
  · cases hfield
  · obtain ⟨binding, hbinding, rfl⟩ := List.mem_map.1 hfield
    exact isOrdered?_some.2 (h binding hbinding)

/-- **Bodies keep the order of keys**: a body has an ordered value if its bindings have. And
ordering the fields of a mapping only moves them, keeps the order of those that are not named by
array indices, and leaves them alone when they are ordered.

**Proof sketch.** Object literals order their fields, and all other values are made of constants, of
values in scope and of parts of these, which are ordered (`Reader.keepsOrder_statements`). Ordering
sorts the fields that are named by array indices and puts the others behind them as they are
(`filter_sortKeys`). -/
theorem evaluate_isOrdered {bindings : List (String × Value)} {body : String} {v : Value}
    (hbindings : ∀ binding ∈ bindings, binding.2.IsOrdered)
    (h : evaluate bindings body = .ok v) :
    v.IsOrdered ∧ ∀ fields : Fields Value, (sortKeys fields).Perm fields ∧
      (sortKeys fields).filter (fun field => ¬ IsArrayIndex field.1) =
        fields.filter (fun field => ¬ IsArrayIndex field.1) ∧
      sortKeys (sortKeys fields) = sortKeys fields := by
  constructor
  · unfold evaluate at h
    rcases hbody : bodyStatements body with f | ss
    · rw [hbody] at h
      cases h
    obtain ⟨ts, -, rfl⟩ := map_eq_ok_iff.1 hbody
    rw [hbody] at h
    obtain ⟨w, hw, rfl⟩ := map_eq_ok_iff.1 h
    exact isOrdered_getD
      (Reader.keepsOrder_statements _ _ ts _ _ (isOrdered_scopeOf hbindings) hw)
  · intro fields
    have hnot : (fun field : String × Value => decide (¬ IsArrayIndex field.1)) =
        fun field => !isIndexKey field.1 := by
      funext field
      rw [Bool.eq_iff_iff, decide_eq_true_iff, ← isIndexKey_iff, Bool.not_eq_true', Bool.not_eq_true]
    rw [hnot]
    exact ⟨sortKeys_perm fields, filter_sortKeys fields, sortKeys_sortKeys fields⟩

/-- A mapping that lists an array index behind another name. -/
def outOfOrder : Value :=
  .mapping [("b", .null), ("0", .null)]

/-- A mapping that lists an array index behind another name is put in order. -/
theorem evaluate_isOrdered_outOfOrder : ¬ outOfOrder.IsOrdered ∧
    ∃ v, evaluate [("deck", .mapping [("0", .null), ("b", .null)])]
      ("return " ++ Json.text outOfOrder) = .ok v ∧ v.IsOrdered := by
  have hindex : IsArrayIndex "0" ∧ ¬ IsArrayIndex "b" := by decide
  constructor
  · rintro (_ | _ | _ | _ | _ | ⟨⟨indexed, named, hfields, hindexed, hnamed, -⟩, -⟩)
    cases indexed with
    | nil =>
      rw [List.nil_append] at hfields
      subst hfields
      exact hnamed _ (List.mem_cons_of_mem _ (List.mem_cons_self ..)) hindex.1
    | cons field rest =>
      obtain ⟨rfl, -⟩ := List.cons.inj hfields
      exact hindex.2 (hindexed _ (List.mem_cons_self ..))
  · have hbindings : ∀ binding ∈ [("deck", Value.mapping [("0", .null), ("b", .null)])],
        binding.2.IsOrdered := by
      intro binding hbinding
      obtain rfl := List.mem_singleton.1 hbinding
      refine .mapping ⟨[("0", .null)], [("b", .null)], rfl, ?_, ?_, List.pairwise_singleton ..⟩ ?_
      · simp [hindex.1]
      · simp [hindex.2]
      · simp [Value.IsOrdered.null]
    have hexact : outOfOrder.IsExact := .mapping (by decide) (by simp [Value.IsExact.null])
    obtain ⟨v, hv, -⟩ := (spells_render hexact).evaluate
      [("deck", .mapping [("0", .null), ("b", .null)])]
    exact ⟨v, hv, (evaluate_isOrdered hbindings hv).1⟩

end Script

end CardTable
