import CardTable.Proofs.Script.Grammar.Completeness
import CardTable.Proofs.Script.Expressions.Literals

set_option autoImplicit false

/-!
# JSON texts as expressions

The compact JSON text of a value is an expression. Its value is the one that was printed, except
that every mapping lists the fields first that are named by array indices.

## Main definitions

* `CardTable.Value.IsExact` — values that a script has as well: whole numbers of at most 53 bits,
  and mappings whose names are distinct.
* `CardTable.Script.IndicesFirst` — the order in which a script lists fields.
* `CardTable.Script.Listing` — the same value with the fields of its mappings in that order.

## Main results

* `CardTable.Script.indicesFirst_sortKeys` — the order of fields.
* `CardTable.Script.evaluate_return_text` — a body that returns a JSON text.
-/

namespace CardTable

/-- The values that a script has as well: a whole number has at most 53 bits, and the names in a
mapping are distinct. -/
inductive Value.IsExact : Value → Prop
  | null : IsExact .null
  | bool (b : Bool) : IsExact (.bool b)
  | whole {n : Int} (h : n.natAbs ≤ 2 ^ 53 - 1) : IsExact (.num (.ofInt n))
  | str (s : String) : IsExact (.str s)
  | list {items : List Value} (h : ∀ item ∈ items, IsExact item) : IsExact (.list items)
  | mapping {fields : List (String × Value)} (hkeys : (fields.map Prod.fst).Nodup)
      (h : ∀ field ∈ fields, IsExact field.2) : IsExact (.mapping fields)

namespace Script

open Reader

/-! ## The order of fields -/

/-- A name is an array index: the text of a number below `2 ^ 32 - 1`. -/
def IsArrayIndex (name : String) : Prop :=
  ∃ n < 2 ^ 32 - 1, name = Nat.repr n

/-- The list `listed` has the fields `fields`: those named by array indices come first, in ascending
order, and the others keep their order. -/
def IndicesFirst {α : Type} (fields listed : List (String × α)) : Prop :=
  ∃ indexed named, listed = indexed ++ named ∧ listed.Perm fields ∧
    (∀ field ∈ indexed, IsArrayIndex field.1) ∧ (∀ field ∈ named, ¬ IsArrayIndex field.1) ∧
    indexed.Pairwise (fun f g => ∃ m n, f.1 = Nat.repr m ∧ g.1 = Nat.repr n ∧ m < n) ∧
    named.Sublist fields

/-- The same value with the fields of all mappings in the order in which a script lists them. -/
inductive Listing : Value → Value → Prop
  | null : Listing .null .null
  | bool (b : Bool) : Listing (.bool b) (.bool b)
  | num (n : Number) : Listing (.num n) (.num n)
  | str (s : String) : Listing (.str s) (.str s)
  | list {items items' : List Value} (hitems : List.Forall₂ Listing items items') :
      Listing (.list items) (.list items')
  | mapping {fields fields' listed : List (String × Value)}
      (hnames : fields'.map Prod.fst = fields.map Prod.fst)
      (hvalues : List.Forall₂ Listing (fields.map Prod.snd) (fields'.map Prod.snd))
      (hlisted : IndicesFirst fields' listed) : Listing (.mapping fields) (.mapping listed)

/-- Whether a name is an array index. -/
lemma isIndexKey_iff {name : String} : isIndexKey name = true ↔ IsArrayIndex name := by
  rw [isIndexKey, Option.isSome_iff_exists]
  simp only [indexKey?_eq_some_iff]
  rfl

/-- **The order of fields** whose names are distinct. -/
theorem indicesFirst_sortKeys {α : Type} {fields : Fields α} (hkeys : fields.keys.Nodup) :
    IndicesFirst fields (sortKeys fields) := by
  let indexed := fields.filter fun field => isIndexKey field.1
  let place : String × α → Nat := fun field => (indexKey? field.1).getD 0
  have hindexed : ∀ field ∈ indexed, IsArrayIndex field.1 := fun field hfield =>
    isIndexKey_iff.1 (List.mem_filter.1 hfield).2
  have hperm := List.mergeSort_perm indexed fun f g => decide (place f ≤ place g)
  refine ⟨_, _, rfl, sortKeys_perm fields, ?_, ?_, ?_, List.filter_sublist⟩
  · exact fun field hfield => hindexed field (hperm.mem_iff.1 hfield)
  · intro field hfield hindex
    have hnot := (List.mem_filter.1 hfield).2
    rw [isIndexKey_iff.2 hindex] at hnot
    cases hnot
  · have hsorted := @List.pairwise_mergeSort _ (fun f g => decide (place f ≤ place g))
      (fun f g h hfg hgh => by simpa using Nat.le_trans (of_decide_eq_true hfg) (of_decide_eq_true hgh))
      (fun f g => by simpa using Nat.le_total _ _) indexed
    have hdistinct : (indexed.mergeSort fun f g => decide (place f ≤ place g)).Pairwise
        fun f g => f.1 ≠ g.1 := by
      have hnodup : (indexed.map Prod.fst).Nodup := (List.filter_sublist.map _).nodup hkeys
      exact List.pairwise_map.1 ((hperm.map Prod.fst).nodup_iff.2 hnodup)
    refine (hsorted.and hdistinct).imp_of_mem ?_
    rintro f g hf hg ⟨hle, hne⟩
    obtain ⟨m, hm, hfm⟩ := hindexed f (hperm.mem_iff.1 hf)
    obtain ⟨n, hn, hgn⟩ := hindexed g (hperm.mem_iff.1 hg)
    refine ⟨m, n, hfm, hgn, ?_⟩
    have hplaces : place f ≤ place g := of_decide_eq_true hle
    simp only [place, indexKey?_eq_some_iff.2 ⟨hm, hfm⟩, indexKey?_eq_some_iff.2 ⟨hn, hgn⟩,
      Option.getD_some] at hplaces
    refine Nat.lt_of_le_of_ne hplaces ?_
    rintro rfl
    exact hne (hfm.trans hgn.symm)

/-! ## Texts that are expressions -/

/-- Wherever the text `cs` stands, it is an expression for the value `v`. -/
def Spells (cs : List Char) (v : Value) : Prop :=
  ∀ o left, ahead left = [] → ∃ ts, Scans (locate o cs ++ left) ts left ∧ ∀ us, IsEnd us →
    ∃ e, Reads substitutionExpr .expression (ts ++ us) (.expr e) us ∧
      ∀ scope, ∃ w, e.eval scope = .ok (some w) ∧ Listing v w

/-- A text that is one token, which stands for the value. -/
lemma Spells.of_atom {cs : List Char} {v : Value} (hlisting : Listing v v)
    (h : ∀ o left, ahead left = [] → ∃ t, Scans (locate o cs ++ left) [t] left ∧
      atom? substitutionExpr t.token = some (.constant (some v))) : Spells cs v := by
  intro o left hleft
  obtain ⟨t, hscans, ht⟩ := h o left hleft
  refine ⟨[t], hscans, fun us hus => ⟨.constant (some v), ?_, fun scope => ⟨v, ?_, hlisting⟩⟩⟩
  · exact reads_expression_of_unary (reads_unary_of_primary (.atom ht) hus) hus
  · rw [Expr.eval]

/-- A word that stands for a value. -/
lemma Spells.of_word {c : Char} {cs : List Char} {v : Value} (hlisting : Listing v v)
    (hstart : startsWord c = true) (hgap : isGap c = false)
    (hcs : ∀ d ∈ cs, continuesWord d = true)
    (hconstant : wordConstant? (String.ofList (c :: cs)) = some (some v)) : Spells (c :: cs) v := by
  refine .of_atom hlisting fun o left hleft => ?_
  have hstop : left.head?.any (fun g => continuesWord g.char) = false := by
    rw [any_head?_eq continuesWord_of_isApart, hleft]
    rfl
  obtain ⟨t, hscans, ht, -⟩ := exists_scans_word hstart hgap hcs o _ hstop
  exact ⟨t, hscans, by rw [ht, atom?, hconstant]; rfl⟩

/-- The string literal of a text. -/
lemma spells_quote (s : String) : Spells (Json.quote s) (.str s) := by
  refine .of_atom (.str s) fun o left _ => ?_
  obtain ⟨t, hscans, ht, -⟩ := exists_scans_quote s o left
  exact ⟨t, hscans, by rw [ht]; rfl⟩

/-- The digits of a whole number. -/
lemma exists_scans_number {n : Nat} (h : n ≤ maxSafe) (o : Nat) {left : List Glyph}
    (hleft : ahead left = []) : ∃ t, Scans (locate o (Nat.toDigits 10 n) ++ left) [t] left ∧
      atom? substitutionExpr t.token = some (.constant (some (.num (.ofInt n)))) := by
  have hdigits : ∀ c ∈ Nat.toDigits 10 n, c.isDigit = true := fun c hc =>
    Nat.isDigit_of_mem_toDigits (b := 10) (by decide) (by decide) hc
  obtain ⟨t, hscans, ht, -⟩ := exists_scans_digits hdigits Nat.toDigits_ne_nil o hleft
  refine ⟨t, hscans, ?_⟩
  rw [ht, atom?, Text.digitsValue_toDigits, numberValue_ofDecimal? h]

/-- A minus sign in front of a whole number. -/
lemma negate?_ofInt {n : Nat} (h : n ≤ maxSafe) :
    negate? (.ofInt n) = some (.num (.ofInt (-n))) := by
  unfold maxSafe at h
  have hwide : Wide n := ⟨by omega, by omega⟩
  have hsigned : Signed (n : Int) := ⟨by omega, by omega⟩
  refine negate?_of_signed ?_ (by omega)
  rw [Number.ofInt, dif_pos hwide, Number.signed?, if_pos hsigned]

/-- The text of a whole number. -/
lemma spells_intText {n : Int} (h : n.natAbs ≤ maxSafe) :
    Spells (Json.intText n) (.num (.ofInt n)) := by
  by_cases hneg : n < 0
  · have hn : -((n.natAbs : Nat) : Int) = n := by omega
    rw [Json.intText, if_pos hneg]
    intro o left hleft
    obtain ⟨t, hscans, ht⟩ := exists_scans_number h (o + 1) hleft
    obtain ⟨minus, hminus, hpunct, -⟩ := exists_scans_sign (c := '-') _ rfl o
    rw [locate_single o rfl]
    refine ⟨[minus, t], hminus.append hscans, fun us hus =>
      ⟨.signed true (.constant (some (.num (.ofInt n.natAbs)))), ?_, fun scope => ?_⟩⟩
    · exact reads_expression_of_unary
        (.signed true hpunct (reads_unary_of_primary (.atom ht) hus)) hus
    · refine ⟨.num (.ofInt n), ?_, .num _⟩
      rw [Expr.eval, Expr.eval, ok_bind, applySign_of_negate? (negate?_ofInt h), hn]
  · have hn : ((n.natAbs : Nat) : Int) = n := by omega
    rw [Json.intText, if_neg hneg]
    exact .of_atom (.num _) fun o left hleft => hn ▸ exists_scans_number h o hleft

/-! ## Lists and mappings -/

/-- Wherever the items stand, they are read up to the bracket behind them. -/
def ItemsSpell (items : List Value) : Prop :=
  ∀ o left, ∃ ts, Scans (locate o (Json.renderItems items) ++ left) ts left ∧ ∀ us,
    ∃ parts, Reads substitutionExpr .items (ts ++ us) (.items parts) us ∧
      ∀ scope, ∃ values, evalItems scope parts = .ok values ∧ List.Forall₂ Listing items values

/-- No items. -/
lemma ItemsSpell.nil : ItemsSpell [] := by
  intro o left
  obtain ⟨close, hclose, hpunct, -⟩ := exists_scans_sign (c := ']') left rfl o
  exact ⟨[close], hclose, fun us => ⟨[], .noItem hpunct, fun scope => ⟨[], rfl, .nil⟩⟩⟩

/-- One item more. -/
lemma ItemsSpell.cons {item : Value} {rest : List Value} (hitem : Spells (Json.render item) item)
    (hrest : ItemsSpell rest) : ItemsSpell (item :: rest) := by
  intro o left
  let stop := o + Text.byteCount (Json.render item)
  rcases rest with - | ⟨next, more⟩
  · have htext : locate o (Json.renderItems [item]) ++ left =
        locate o (Json.render item) ++ ⟨stop, ']'⟩ :: left := by
      rw [Json.renderItems, Json.renderMoreItems, locate_append_single o _ rfl]
      simp [locate, stop]
    obtain ⟨close, hclose, hpunct, -⟩ := exists_scans_sign (c := ']') left rfl stop
    obtain ⟨ts, hscans, hreads⟩ := hitem o (⟨stop, ']'⟩ :: left) rfl
    refine ⟨ts ++ [close], htext ▸ hscans.append hclose, fun us => ?_⟩
    obtain ⟨e, he, hvalue⟩ := hreads (close :: us) (.of_isPunct hpunct (by decide) us)
    refine ⟨[.value e], ?_, fun scope => ?_⟩
    · rw [List.append_assoc]
      exact .lastItem (.valueItem he) hpunct
    · obtain ⟨w, hw, hlisting⟩ := hvalue scope
      refine ⟨[w], ?_, .cons hlisting .nil⟩
      simp only [evalItems, hw, ok_bind, Option.getD_some]
  · obtain ⟨us, hmore, hitems⟩ := hrest (stop + 1) left
    let behind := locate (stop + 1) (Json.renderItems (next :: more)) ++ left
    have htext : locate o (Json.renderItems (item :: next :: more)) ++ left =
        locate o (Json.render item) ++ ⟨stop, ','⟩ :: behind := by
      rw [Json.renderItems, Json.renderMoreItems, locate_append_single o _ rfl, List.append_assoc]
      rfl
    obtain ⟨comma, hcomma, hpunct, -⟩ := exists_scans_sign (c := ',') behind rfl stop
    obtain ⟨ts, hscans, hreads⟩ := hitem o (⟨stop, ','⟩ :: behind) rfl
    refine ⟨ts ++ ([comma] ++ us), htext ▸ hscans.append (hcomma.append hmore), fun vs => ?_⟩
    obtain ⟨parts, hparts, hvalues⟩ := hitems vs
    obtain ⟨e, he, hvalue⟩ :=
      hreads (comma :: (us ++ vs)) (.of_isPunct hpunct (by decide) (us ++ vs))
    refine ⟨.value e :: parts, ?_, fun scope => ?_⟩
    · rw [List.append_assoc]
      exact .moreItems (.valueItem he) hpunct hparts
    · obtain ⟨w, hw, hlisting⟩ := hvalue scope
      obtain ⟨ws, hws, hlistings⟩ := hvalues scope
      refine ⟨w :: ws, ?_, .cons hlisting hlistings⟩
      simp only [evalItems, hw, hws, ok_bind, Option.getD_some]

/-- Wherever the fields stand, they are read up to the brace behind them, and are set behind those
that are there. -/
def FieldsSpell (fields : Fields Value) : Prop :=
  ∀ o left, ∃ ts, Scans (locate o (Json.renderFields fields) ++ left) ts left ∧ ∀ us,
    ∃ parts, Reads substitutionExpr .entries (ts ++ us) (.entries parts) us ∧
      ∀ scope before, (Fields.keys before ++ fields.keys).Nodup → ∃ fields' : Fields Value,
        evalEntries scope before parts = .ok (before ++ fields') ∧ fields'.keys = fields.keys ∧
          List.Forall₂ Listing (fields.map Prod.snd) (fields'.map Prod.snd)

/-- No fields. -/
lemma FieldsSpell.nil : FieldsSpell [] := by
  intro o left
  obtain ⟨close, hclose, hpunct, -⟩ := exists_scans_sign (c := '\x7d') left rfl o
  refine ⟨[close], hclose, fun us =>
    ⟨[], .noEntry hpunct, fun scope before _ => ⟨[], ?_, rfl, .nil⟩⟩⟩
  rw [evalEntries, List.append_nil]

/-- The name of a field and the value behind it. -/
lemma exists_reads_field (name : String) {value : Value}
    (hvalue : Spells (Json.render value) value) (o : Nat) (left : List Glyph)
    (hleft : ahead left = []) :
    ∃ ts, Scans (locate o (Json.quote name ++ ':' :: Json.render value) ++ left) ts left ∧
      ∀ us, IsEnd us → ∃ e, Reads substitutionExpr .entry (ts ++ us)
        (.entry (.property name e)) us ∧
        ∀ scope, ∃ w, e.eval scope = .ok (some w) ∧ Listing value w := by
  let stop := o + Text.byteCount (Json.quote name)
  let behind := locate (stop + 1) (Json.render value) ++ left
  obtain ⟨key, hkey, htoken, -⟩ := exists_scans_quote name o (⟨stop, ':'⟩ :: behind)
  obtain ⟨colon, hcolon, hpunct, -⟩ := exists_scans_sign (c := ':') behind rfl stop
  obtain ⟨ts, hscans, hreads⟩ := hvalue (stop + 1) left hleft
  refine ⟨[key] ++ ([colon] ++ ts), ?_, fun us hus => ?_⟩
  · rw [locate_append_single o _ rfl, List.append_assoc]
    exact hkey.append (hcolon.append hscans)
  · obtain ⟨e, he, heval⟩ := hreads us hus
    have hname : literalKey? key.token = some name := by rw [htoken]; rfl
    exact ⟨e, .property hname (.propertyValue hpunct he), heval⟩

/-- A field with a new name is set behind those that are there. -/
lemma evalEntries_property {scope : Scope} {before : Fields Value} {name : String} {e : Expr}
    {w : Value} (hname : name ∉ before.keys) (he : e.eval scope = .ok (some w))
    (parts : List Entry) : evalEntries scope before (.property name e :: parts) =
      evalEntries scope (before ++ [(name, w)]) parts := by
  simp only [evalEntries, he, ok_bind, setProperty, Fields.insert_of_not_mem hname]

/-- One field more. -/
lemma FieldsSpell.cons {name : String} {value : Value} {rest : Fields Value}
    (hvalue : Spells (Json.render value) value) (hrest : FieldsSpell rest) :
    FieldsSpell ((name, value) :: rest) := by
  intro o left
  let field := Json.quote name ++ ':' :: Json.render value
  let stop := o + Text.byteCount field
  have hnew : ∀ before : Fields Value,
      (before.keys ++ Fields.keys ((name, value) :: rest)).Nodup → name ∉ before.keys := by
    intro before hkeys hmem
    exact (List.nodup_append.1 hkeys).2.2 name hmem name (by simp [Fields.keys]) rfl
  rcases rest with - | ⟨⟨next, other⟩, more⟩
  · have htext : locate o (Json.renderFields [(name, value)]) ++ left =
        locate o field ++ ⟨stop, '\x7d'⟩ :: left := by
      have hpieces : Json.renderFields [(name, value)] = field ++ '\x7d' :: [] := by
        simp [Json.renderFields, Json.renderMoreFields, field]
      rw [hpieces, locate_append_single o _ rfl]
      simp [locate, stop]
    obtain ⟨close, hclose, hpunct, -⟩ := exists_scans_sign (c := '\x7d') left rfl stop
    obtain ⟨ts, hscans, hreads⟩ :=
      exists_reads_field name hvalue o (⟨stop, '\x7d'⟩ :: left) rfl
    refine ⟨ts ++ [close], htext ▸ hscans.append hclose, fun us => ?_⟩
    obtain ⟨e, he, heval⟩ := hreads (close :: us) (.of_isPunct hpunct (by decide) us)
    refine ⟨[.property name e], ?_, fun scope before hkeys => ?_⟩
    · rw [List.append_assoc]
      exact .lastEntry he hpunct
    · obtain ⟨w, hw, hlisting⟩ := heval scope
      refine ⟨[(name, w)], ?_, rfl, .cons hlisting .nil⟩
      rw [evalEntries_property (hnew before hkeys) hw, evalEntries]
  · obtain ⟨us, hmore, hfields⟩ := hrest (stop + 1) left
    let behind := locate (stop + 1) (Json.renderFields ((next, other) :: more)) ++ left
    have htext : locate o (Json.renderFields ((name, value) :: (next, other) :: more)) ++ left =
        locate o field ++ ⟨stop, ','⟩ :: behind := by
      have hpieces : Json.renderFields ((name, value) :: (next, other) :: more) =
          field ++ ',' :: Json.renderFields ((next, other) :: more) := by
        simp [Json.renderFields, Json.renderMoreFields, field]
      rw [hpieces, locate_append_single o _ rfl, List.append_assoc]
      rfl
    obtain ⟨comma, hcomma, hpunct, -⟩ := exists_scans_sign (c := ',') behind rfl stop
    obtain ⟨ts, hscans, hreads⟩ :=
      exists_reads_field name hvalue o (⟨stop, ','⟩ :: behind) rfl
    refine ⟨ts ++ ([comma] ++ us), htext ▸ hscans.append (hcomma.append hmore), fun vs => ?_⟩
    obtain ⟨parts, hparts, hvalues⟩ := hfields vs
    obtain ⟨e, he, heval⟩ :=
      hreads (comma :: (us ++ vs)) (.of_isPunct hpunct (by decide) (us ++ vs))
    refine ⟨.property name e :: parts, ?_, fun scope before hkeys => ?_⟩
    · rw [List.append_assoc]
      exact .moreEntries he hpunct hparts
    · obtain ⟨w, hw, hlisting⟩ := heval scope
      have hkeys' : (Fields.keys (before ++ [(name, w)]) ++
          Fields.keys ((next, other) :: more)).Nodup := by
        simpa [Fields.keys] using hkeys
      obtain ⟨fields', heval', hnames, hlistings⟩ := hvalues scope (before ++ [(name, w)]) hkeys'
      refine ⟨(name, w) :: fields', ?_, ?_, .cons hlisting hlistings⟩
      · rw [evalEntries_property (hnew before hkeys) hw, heval', List.append_assoc]
        rfl
      · exact congrArg (name :: ·) hnames

/-! ## Values -/

/-- A list of values. -/
lemma spells_list {items : List Value} (h : ∀ item ∈ items, Spells (Json.render item) item) :
    Spells (Json.render (.list items)) (.list items) := by
  have hitems : ItemsSpell items := by
    induction items with
    | nil => exact .nil
    | cons item rest ih =>
      exact .cons (h item (List.mem_cons_self ..)) (ih fun i hi => h i (List.mem_cons_of_mem _ hi))
  intro o left hleft
  obtain ⟨ts, hscans, hreads⟩ := hitems (o + 1) left
  obtain ⟨open', hopen, hpunct, -⟩ := exists_scans_sign (c := '[')
    (locate (o + 1) (Json.renderItems items) ++ left) rfl o
  rw [Json.render, locate_single o rfl]
  refine ⟨open' :: ts, hopen.append hscans, fun us hus => ?_⟩
  obtain ⟨parts, hparts, hvalues⟩ := hreads us
  refine ⟨.array parts, ?_, fun scope => ?_⟩
  · exact reads_expression_of_unary (reads_unary_of_primary (.array hpunct hparts) hus) hus
  · obtain ⟨values, heval, hlistings⟩ := hvalues scope
    refine ⟨.list values, ?_, .list hlistings⟩
    simp only [Expr.eval, heval, ok_bind]

/-- A mapping whose names are distinct. -/
lemma spells_mapping {fields : Fields Value} (hkeys : fields.keys.Nodup)
    (h : ∀ field ∈ fields, Spells (Json.render field.2) field.2) :
    Spells (Json.render (.mapping fields)) (.mapping fields) := by
  have hfields : FieldsSpell fields := by
    clear hkeys
    induction fields with
    | nil => exact .nil
    | cons field rest ih =>
      exact .cons (h field (List.mem_cons_self ..)) (ih fun f hf => h f (List.mem_cons_of_mem _ hf))
  intro o left hleft
  obtain ⟨ts, hscans, hreads⟩ := hfields (o + 1) left
  obtain ⟨open', hopen, hpunct, -⟩ := exists_scans_sign (c := '\x7b')
    (locate (o + 1) (Json.renderFields fields) ++ left) rfl o
  rw [Json.render, locate_single o rfl]
  refine ⟨open' :: ts, hopen.append hscans, fun us hus => ?_⟩
  obtain ⟨parts, hparts, hvalues⟩ := hreads us
  refine ⟨.object parts, ?_, fun scope => ?_⟩
  · exact reads_expression_of_unary (reads_unary_of_primary (.object hpunct hparts) hus) hus
  · obtain ⟨fields', heval, hnames, hlistings⟩ := hvalues scope [] hkeys
    refine ⟨.mapping (sortKeys fields'), ?_, .mapping hnames hlistings ?_⟩
    · simp only [Expr.eval, heval, ok_bind, List.nil_append]
    · exact indicesFirst_sortKeys (hnames ▸ hkeys)

/-- **The compact JSON text** of a value is an expression for it.

**Proof sketch.** Induction on the value, with one lemma for each kind of text (`spells_quote`,
`spells_intText`, `spells_list`, `spells_mapping`). -/
theorem spells_render {v : Value} (hv : v.IsExact) : Spells (Json.render v) v := by
  induction hv with
  | null => exact .of_word .null rfl rfl (by decide) rfl
  | bool b =>
    cases b with
    | false => exact .of_word (.bool _) rfl rfl (by decide) rfl
    | true => exact .of_word (.bool _) rfl rfl (by decide) rfl
  | @whole n h =>
    have hwide : Wide n := ⟨by omega, by omega⟩
    have htext : Json.render (.num (.ofInt n)) = Json.intText n := by
      rw [Json.render, Number.ofInt, dif_pos hwide, Json.numberText]
    exact htext ▸ spells_intText h
  | str s => exact spells_quote s
  | list _ ih => exact spells_list ih
  | mapping hkeys _ ih => exact spells_mapping hkeys ih

/-- A body that returns a text for a value. -/
lemma Spells.evaluate {v : Value} (h : Spells (Json.render v) v)
    (bindings : List (String × Value)) :
    ∃ w, Script.evaluate bindings ("return " ++ Json.text v) = .ok w ∧ Listing v w := by
  obtain ⟨ts, hscans, hreads⟩ := h 7 [] rfl
  obtain ⟨e, hexpression, heval⟩ := hreads [] (.inl rfl)
  obtain ⟨w, hw, hlisting⟩ := heval (scopeOf bindings)
  rw [List.append_nil] at hscans hexpression
  refine ⟨w, ?_, hlisting⟩
  have hsource : (Json.text v).toList = Json.render v := String.toList_ofList
  rw [← hsource] at hscans
  rw [evaluate_of_reads bindings hscans hexpression, hw]
  rfl

/-- A body that returns a string literal. -/
lemma evaluate_return_quote (bindings : List (String × Value)) (s : String) :
    evaluate bindings ("return " ++ Json.text (.str s)) = .ok (.str s) := by
  obtain ⟨w, hw, hlisting⟩ := Spells.evaluate (v := .str s) (spells_quote s) bindings
  cases hlisting
  exact hw

/-- **A body that returns a JSON text** gives the value that was printed, except that every mapping
lists the fields first that are named by array indices, in ascending order. -/
theorem evaluate_return_text {v : Value} (hv : v.IsExact) (bindings : List (String × Value)) :
    ∃ w, evaluate bindings ("return " ++ Json.text v) = .ok w ∧ Listing v w :=
  (spells_render hv).evaluate bindings

/-- A mapping that lists an array index behind another name. -/
def unlisted : Value :=
  .mapping [("b", .num (.ofInt (-1))), ("0", .list [.null, .str "\n"])]

/-- A mapping that lists an array index behind another name is printed and evaluated. -/
theorem evaluate_return_unlisted : unlisted.IsExact ∧
    Json.text unlisted = "\x7b\"b\":-1,\"0\":[null,\"\\n\"]\x7d" ∧
    ∃ w, evaluate [] ("return " ++ Json.text unlisted) = .ok w ∧ Listing unlisted w := by
  have hexact : unlisted.IsExact := by
    refine .mapping (by decide) ?_
    simp only [List.mem_cons, List.not_mem_nil, or_false, forall_eq_or_imp, forall_eq]
    refine ⟨.whole (by decide), .list ?_⟩
    simp only [List.mem_cons, List.not_mem_nil, or_false, forall_eq_or_imp, forall_eq]
    exact ⟨.null, .str "\n"⟩
  exact ⟨hexact, by decide, evaluate_return_text hexact []⟩

end Script

end CardTable
