import CardTable.Proofs.Script.Expressions.KeyOrder
import CardTable.Proofs.Script.Grammar.Pieces

set_option autoImplicit false

/-!
# Object literals that are spread

The properties of an object literal may be written in a literal of their own that is spread into the
first one. A property that is `undefined` makes the difference: written in place it removes what
stands in front of it, and a mapping that is spread does not hold it. Apart from that both literals
have the same fields in the same order.

## Main definitions

* `CardTable.Script.Entry.settings` — the properties that a part of an object literal sets or
  removes.
* `CardTable.Script.objectText`, `CardTable.Script.spreadText` — the texts of an object literal, in
  place and spread into another one.
* `CardTable.Script.IsProperty` — texts that are parts of object literals.

## Main results

* `CardTable.Script.applySettings_eq` — properties that are set on fields, and the fields that they
  make up on their own.
* `CardTable.Script.evaluate_objectText` — the value of an object literal.
* `CardTable.Script.evaluate_spreadText` — properties that are spread and properties in place.
-/

namespace CardTable.Script

open Reader

/-! ## Properties that are set -/

/-- The properties that a part of an object literal sets, or removes if they are `undefined`, one
after the other. -/
def Entry.settings (scope : Scope) : Entry → Except Failure (List (String × Option Value))
  | .property key value => do
    let v ← value.eval scope
    .ok [(key, v)]
  | .computed key value => do
    let k ← key.eval scope
    let v ← value.eval scope
    .ok [(propertyKey k, v)]
  | .shorthand word => do
    let v ← lookup scope word
    .ok [(word, v)]
  | .spread source => do
    let v ← source.eval scope
    .ok ((spreadFields v).map fun field => (field.1, some field.2))
  | .cut f => .error (.fault f)

/-- The fields with properties set or removed one after the other. -/
def applySettings (fields : Fields Value) (settings : List (String × Option Value)) :
    Fields Value :=
  settings.foldl (fun fields setting => setProperty fields setting.1 setting.2) fields

/-- Whether one of the properties is `undefined` and named `name`. -/
def removes (settings : List (String × Option Value)) (name : String) : Bool :=
  settings.any fun setting => setting.1 == name && setting.2.isNone

section Settings

variable {scope : Scope} {fields : Fields Value} {settings more : List (String × Option Value)}

/-- Settings are made one after the other. -/
lemma applySettings_append (fields : Fields Value)
    (settings more : List (String × Option Value)) :
    applySettings fields (settings ++ more) = applySettings (applySettings fields settings) more :=
  List.foldl_append

/-- Properties with values are set all at once. -/
lemma applySettings_map_some (fields more : Fields Value) :
    applySettings fields (more.map fun field => (field.1, some field.2)) =
      Fields.insertAll fields more :=
  List.foldl_map

/-- Properties keep the names of fields distinct. -/
lemma nodup_keys_applySettings (settings : List (String × Option Value))
    (h : fields.keys.Nodup) : (applySettings fields settings).keys.Nodup := by
  induction settings generalizing fields with
  | nil => exact h
  | cons setting rest ih =>
    obtain ⟨key, v | v⟩ := setting
    · exact ih (Fields.nodup_keys_filter _ h)
    · exact ih (Fields.nodup_keys_insert _ _ h)

/-- An object literal sets the properties of its parts one after the other. -/
lemma evalEntries_cons (scope : Scope) (fields : Fields Value) (part : Entry)
    (rest : List Entry) : evalEntries scope fields (part :: rest) =
      (part.settings scope >>= fun settings =>
        evalEntries scope (applySettings fields settings) rest) := by
  cases part with
  | spread source =>
    simp only [evalEntries, Entry.settings, bind_assoc, ok_bind, applySettings_map_some]
  | cut => rfl
  | _ => simp only [evalEntries, Entry.settings, bind_assoc, ok_bind, applySettings, List.foldl]

/-- **Properties that are set on fields** remove those of which they are `undefined` at one time,
and set the fields that they make up on their own.

**Proof sketch.** Induction on the properties, from the last one on. A value that is set behind all
others is set on the fields that they make up; an `undefined` one removes its field from both parts
of the result. -/
theorem applySettings_eq (fields : Fields Value) (settings : List (String × Option Value)) :
    applySettings fields settings =
      Fields.insertAll (fields.filter fun field => !removes settings field.1)
        (applySettings [] settings) := by
  induction settings using List.reverseRecOn with
  | nil => simp [applySettings, removes, Fields.insertAll]
  | append_singleton settings setting ih =>
    obtain ⟨key, v | v⟩ := setting
    · have hremoves : ∀ name, removes (settings ++ [(key, none)]) name =
          (removes settings name || key == name) := by
        simp [removes]
      rw [applySettings_append, applySettings_append, ih]
      refine (Fields.filter_insertAll (· ≠ key) _ _).trans ?_
      rw [List.filter_filter]
      congr 2
      funext field
      rw [hremoves, Bool.not_or, Bool.and_comm]
      by_cases hkey : key = field.1
      · simp [hkey]
      · simp [hkey, Ne.symm hkey]
    · have hremoves : ∀ name, removes (settings ++ [(key, some v)]) name =
          removes settings name := by
        simp [removes]
      have hmore : (applySettings [] settings).keys.Nodup :=
        nodup_keys_applySettings settings List.nodup_nil
      rw [applySettings_append, applySettings_append, ih]
      simp only [hremoves]
      exact (Fields.insertAll_insert _ hmore key v).symm

end Settings

/-! ## Setting ordered fields -/

/-- Fields may be ordered before they are set, if all are ordered then. -/
lemma sortKeys_insertAll_sortKeys {α : Type} {fields more : Fields α} (h : fields.keys.Nodup)
    (hmore : more.keys.Nodup) :
    sortKeys (Fields.insertAll fields (sortKeys more)) = sortKeys (Fields.insertAll fields more) := by
  have hperm := Fields.insertAll_perm h hmore (sortKeys_perm more).symm
  refine (sortKeys_of_perm (Fields.nodup_keys_insertAll _ h) hperm ?_).symm
  rw [Fields.filter_insertAll (!isIndexKey ·), Fields.filter_insertAll (!isIndexKey ·),
    filter_sortKeys]

/-! ## Texts of object literals -/

/-- The texts of a list, with commas between them. -/
def listText : List String → String
  | [] => ""
  | [p] => p
  | p :: q :: rest => p ++ "," ++ listText (q :: rest)

/-- The text of an object literal with the given parts. -/
def objectText (parts : List String) : String :=
  "\x7b" ++ listText parts ++ "\x7d"

/-- The text of a part that spreads an object literal. -/
def spreadText (parts : List String) : String :=
  " ..." ++ objectText parts ++ " "

/-- The text `p` is a part of an object literal that sets the given properties: with a closing brace
behind it, it is read as one up to that brace. -/
def IsProperty (scope : Scope) (p : String) (settings : List (String × Option Value)) : Prop :=
  ∃ part, Fills '\x7d' .entry p.toList (.entry part) ∧ part.settings scope = .ok settings

section Texts

variable {scope : Scope} {p : String} {ps : List String} {settings : List (String × Option Value)}
  {ss : List (List (String × Option Value))}

/-- A part of an object literal with a closing sign is read in the same way wherever it stands. -/
lemma IsProperty.closed (h : IsProperty scope p settings) {d : Char} (hd : IsClosing d) (o : Nat)
    (left : List Glyph) :
    ∃ ts close part, Scans (locate o (p.toList ++ [d]) ++ left) (ts ++ [close]) left ∧
      IsPunct d close ∧ (∀ us, EndsPart us .entry →
        Reads substitutionExpr .entry (ts ++ us) (.entry part) us) ∧
      ∀ fields, evalEntries scope fields [part] = .ok (applySettings fields settings) := by
  obtain ⟨part, hfills, hpart⟩ := h
  obtain ⟨ts, close, node, hscans, hclose, hrefines, -, hreads⟩ :=
    hfills.closed (by decide) hd o left
  obtain ⟨part', rfl, hrefines⟩ := hrefines.exists_entry
  refine ⟨ts, close, part', hscans, hclose, hreads, fun fields => hrefines _ _ _ ?_⟩
  rw [evalEntries_cons, hpart]
  rfl

/-- The parts of an object literal up to its closing brace. -/
lemma exists_scans_listText (h : List.Forall₂ (IsProperty scope) ps ss) (o : Nat)
    (left : List Glyph) :
    ∃ ts parts, Scans (locate o ((listText ps).toList ++ ['\x7d']) ++ left) ts left ∧
      (∀ us, Reads substitutionExpr .entries (ts ++ us) (.entries parts) us) ∧
      ∀ fields, evalEntries scope fields parts = .ok (applySettings fields ss.flatten) := by
  induction h generalizing o with
  | nil =>
    obtain ⟨close, hscans, hclose, -⟩ := exists_scans_sign (c := '\x7d') left rfl o
    exact ⟨[close], [], hscans, fun us => .noEntry hclose, fun fields => by rw [evalEntries]; rfl⟩
  | @cons p settings ps ss hp hps ih =>
    cases hps with
    | nil =>
      obtain ⟨ts, close, part, hscans, hclose, hreads, heval⟩ :=
        hp.closed (d := '\x7d') (by decide) o left
      refine ⟨ts ++ [close], [part], hscans, fun us => ?_, fun fields => ?_⟩
      · rw [List.append_assoc]
        exact .lastEntry (hreads _ (.inr (atSign_cons_iff.2 hclose))) hclose
      · rw [heval, List.flatten_singleton]
    | @cons q _ rest _ hq hrest =>
      let rest' := (listText (q :: rest)).toList ++ ['\x7d']
      let o' := o + Text.byteCount (p.toList ++ [','])
      obtain ⟨us, parts, hbehind, hentries, hevals⟩ := ih o'
      obtain ⟨ts, close, part, hscans, hclose, hreads, heval⟩ :=
        hp.closed (d := ',') (by decide) o (locate o' rest' ++ left)
      refine ⟨ts ++ [close] ++ us, part :: parts, ?_, fun vs => ?_, fun fields => ?_⟩
      · have htext : (listText (p :: q :: rest)).toList ++ ['\x7d'] =
            (p.toList ++ [',']) ++ rest' := by
          simp [listText, rest']
        rw [htext, locate_append, List.append_assoc]
        exact hscans.append hbehind
      · simp only [List.append_assoc, List.cons_append, List.nil_append]
        exact .moreEntries (hreads _ (.inl (atSign_cons_iff.2 hclose))) hclose (hentries vs)
      · rw [← List.singleton_append, evalEntries_append, heval, ok_bind, hevals,
          ← applySettings_append]
        rfl

/-- An object literal is read in the same way wherever it stands. -/
lemma exists_scans_objectText (h : List.Forall₂ (IsProperty scope) ps ss) (o : Nat)
    (left : List Glyph) :
    ∃ ts tree, Scans (locate o (objectText ps).toList ++ left) ts left ∧
      (∀ us, Reads substitutionExpr .primary (ts ++ us) (.expr tree) us) ∧
      tree.eval scope = .ok (some (.mapping (sortKeys (applySettings [] ss.flatten)))) := by
  obtain ⟨ts, parts, hscans, hreads, heval⟩ := exists_scans_listText h (o + 1) left
  obtain ⟨open', hopen, hpunct, -⟩ := exists_scans_sign (c := '\x7b')
    (locate (o + 1) ((listText ps).toList ++ ['\x7d']) ++ left) rfl o
  have htext : locate o (objectText ps).toList ++ left =
      ⟨o, '\x7b'⟩ :: (locate (o + 1) ((listText ps).toList ++ ['\x7d']) ++ left) := by
    rw [objectText, String.toList_append, String.toList_append]
    rfl
  refine ⟨open' :: ts, .object parts, htext ▸ hopen.append hscans,
    fun us => .object hpunct (hreads us), ?_⟩
  rw [Expr.eval, heval]
  rfl

/-- **The value of an object literal**: its properties are set one after the other, and its fields
are ordered. -/
theorem evaluate_objectText {bindings : List (String × Value)}
    (h : List.Forall₂ (IsProperty (scopeOf bindings)) ps ss) :
    evaluate bindings ("return " ++ objectText ps) =
      .ok (.mapping (sortKeys (applySettings [] ss.flatten))) := by
  obtain ⟨ts, tree, hscans, hreads, heval⟩ := exists_scans_objectText h 7 []
  rw [List.append_nil] at hscans
  have hend : IsEnd [] := .inl rfl
  have hexpression := reads_expression_of_unary (reads_unary_of_primary (hreads []) hend) hend
  rw [List.append_nil] at hexpression
  rw [evaluate_of_reads bindings hscans hexpression, heval]
  rfl

/-- Three dots are one sign. -/
lemma exists_scans_spread (o : Nat) (left : List Glyph) :
    ∃ t, Scans (⟨o, '.'⟩ :: ⟨o + 1, '.'⟩ :: ⟨o + 2, '.'⟩ :: left) [t] left ∧
      t.token = .sign .spread :=
  have hslash : ('.' : Char) ≠ '/' := by decide
  ⟨_, .first rfl hslash rfl (.nil left), rfl⟩

/-- A literal that is spread is a part of an object literal: it sets its fields. -/
lemma isProperty_spreadText (h : List.Forall₂ (IsProperty scope) ps ss) :
    IsProperty scope (spreadText ps)
      ((sortKeys (applySettings [] ss.flatten)).map fun field => (field.1, some field.2)) := by
  let stop := 4 + Text.byteCount (objectText ps).toList
  obtain ⟨close, hlast, hclose, -⟩ := exists_scans_sign (c := '\x7d') [] rfl (stop + 1)
  obtain ⟨ts, tree, hobject, hreads, heval⟩ :=
    exists_scans_objectText h 4 [⟨stop, ' '⟩, ⟨stop + 1, '\x7d'⟩]
  obtain ⟨dots, hdots, hspread⟩ := exists_scans_spread 1
    (locate 4 (objectText ps).toList ++ [⟨stop, ' '⟩, ⟨stop + 1, '\x7d'⟩])
  have htext : locate 0 ((spreadText ps).toList ++ ['\x7d']) =
      ⟨0, ' '⟩ :: ⟨1, '.'⟩ :: ⟨2, '.'⟩ :: ⟨3, '.'⟩ ::
        (locate 4 (objectText ps).toList ++ [⟨stop, ' '⟩, ⟨stop + 1, '\x7d'⟩]) := by
    rw [spreadText, String.toList_append, String.toList_append, List.append_assoc, List.append_assoc,
      locate_append, locate_append]
    rfl
  have hscans := (hdots.append (hobject.append (hlast.blank stop))).blank 0
  rw [← htext] at hscans
  have hend : IsEnd [close] := .of_isPunct hclose (by decide) []
  have hexpression :=
    reads_expression_of_unary (reads_unary_of_primary (hreads [close]) hend) hend
  refine ⟨.spread tree, ⟨dots :: ts, close, hscans, hclose,
    .spreadEntry hspread hexpression⟩, ?_⟩
  rw [Entry.settings, heval]
  rfl

/-- A property with a literal for its value. -/
lemma isProperty_of_atom {key : String} {t u w close : Lexeme} {tree : Expr} {v : Option Value}
    (hscans : Scans (locate 0 (p.toList ++ ['\x7d'])) [t, u, w, close] [])
    (ht : literalKey? t.token = some key) (hu : IsPunct ':' u)
    (hw : atom? substitutionExpr w.token = some tree) (hclose : IsPunct '\x7d' close)
    (heval : tree.eval scope = .ok v) : IsProperty scope p [(key, v)] := by
  have hend : IsEnd [close] := .of_isPunct hclose (by decide) []
  have hexpression := reads_expression_of_unary (reads_unary_of_primary (.atom hw) hend) hend
  refine ⟨.property key tree, ⟨[t, u, w], close, hscans, hclose,
    .property ht (.propertyValue hu hexpression)⟩, ?_⟩
  rw [Entry.settings, heval]
  rfl

end Texts

/-! ## Properties that are spread -/

/-- **Properties that are spread and properties in place.** Spread, they set their fields on those
in front of them; in place, they remove the ones of which they are `undefined` before. Where they
remove none, both object literals have the same fields in the same order.

**Proof sketch.** Both literals have the settings of their properties in order. Those of the spread
literal are the fields that its properties make up; the others work on the fields in front of them
(`applySettings_eq`). -/
theorem evaluate_spreadText {bindings : List (String × Value)} {as bs : List String}
    {ss rs : List (List (String × Option Value))}
    (has : List.Forall₂ (IsProperty (scopeOf bindings)) as ss)
    (hbs : List.Forall₂ (IsProperty (scopeOf bindings)) bs rs) :
    let front := applySettings [] ss.flatten
    let behind := applySettings [] rs.flatten
    evaluate bindings ("return " ++ objectText (as ++ [spreadText bs])) =
        .ok (.mapping (sortKeys (Fields.insertAll front behind))) ∧
      evaluate bindings ("return " ++ objectText (as ++ bs)) =
        .ok (.mapping (sortKeys (Fields.insertAll
          (front.filter fun field => !removes rs.flatten field.1) behind))) ∧
      ((∀ name ∈ front.keys, removes rs.flatten name = false) →
        evaluate bindings ("return " ++ objectText (as ++ [spreadText bs])) =
          evaluate bindings ("return " ++ objectText (as ++ bs))) := by
  intro front behind
  have hfront : front.keys.Nodup := nodup_keys_applySettings _ List.nodup_nil
  have hbehind : behind.keys.Nodup := nodup_keys_applySettings _ List.nodup_nil
  have hspread : evaluate bindings ("return " ++ objectText (as ++ [spreadText bs])) =
      .ok (.mapping (sortKeys (Fields.insertAll front behind))) := by
    rw [evaluate_objectText (List.rel_append has (.cons (isProperty_spreadText hbs) .nil)),
      List.flatten_append, List.flatten_singleton, applySettings_append, applySettings_map_some,
      sortKeys_insertAll_sortKeys hfront hbehind]
  have hinline : evaluate bindings ("return " ++ objectText (as ++ bs)) =
      .ok (.mapping (sortKeys (Fields.insertAll
        (front.filter fun field => !removes rs.flatten field.1) behind))) := by
    rw [evaluate_objectText (List.rel_append has hbs), List.flatten_append, applySettings_append,
      applySettings_eq]
  refine ⟨hspread, hinline, fun hkeep => ?_⟩
  have hall : front.filter (fun field => !removes rs.flatten field.1) = front := by
    refine List.filter_eq_self.2 fun field hfield => ?_
    rw [hkeep _ (List.mem_map_of_mem hfield)]
    rfl
  rw [hspread, hinline, hall]

section Undefined

variable {scope : Scope}

/-- A property that sets a field to true. -/
lemma isProperty_true : IsProperty scope " a: true" [("a", some (.bool true))] :=
  isProperty_of_atom ((Scans.first rfl (by decide) rfl (.first rfl (by decide) rfl
    ((Scans.first rfl (by decide) rfl (.first rfl (by decide) rfl (.nil []))).blank 3))).blank 0)
    rfl rfl rfl rfl (by rw [Expr.eval])

/-- Properties that set fields to nothing. -/
lemma isProperty_undefined : IsProperty scope " a: undefined " [("a", none)] ∧
    IsProperty scope " b: undefined " [("b", none)] := by
  constructor
  all_goals
    exact isProperty_of_atom ((Scans.first rfl (by decide) rfl (.first rfl (by decide) rfl
      ((Scans.first rfl (by decide) rfl
        ((Scans.first rfl (by decide) rfl (.nil [])).blank 13)).blank 3))).blank 0)
      rfl rfl rfl rfl (by rw [Expr.eval])

end Undefined

/-- A property that is `undefined` and removes nothing may be spread. -/
theorem evaluate_spread_absent :
    IsProperty (scopeOf []) " a: true" [("a", some (.bool true))] ∧
    IsProperty (scopeOf []) " b: undefined " [("b", none)] ∧
    evaluate [] "return \x7b a: true, ...\x7b b: undefined \x7d \x7d" =
      evaluate [] "return \x7b a: true, b: undefined \x7d" := by
  have htrue : IsProperty (scopeOf []) " a: true" [("a", some (.bool true))] := isProperty_true
  have hundefined : IsProperty (scopeOf []) " b: undefined " [("b", none)] :=
    isProperty_undefined.2
  obtain ⟨-, -, hsame⟩ := evaluate_spreadText (.cons htrue .nil) (.cons hundefined .nil)
  exact ⟨htrue, hundefined, hsame (by decide)⟩

/-- A property that is `undefined` removes one in front of it where it is written in place, and not
where it is spread. -/
theorem evaluate_spread_undefined :
    IsProperty (scopeOf []) " a: true" [("a", some (.bool true))] ∧
    IsProperty (scopeOf []) " a: undefined " [("a", none)] ∧
    evaluate [] "return \x7b a: true, ...\x7b a: undefined \x7d \x7d" =
      .ok (.mapping [("a", .bool true)]) ∧
    evaluate [] "return \x7b a: true, a: undefined \x7d" = .ok (.mapping []) := by
  have htrue : IsProperty (scopeOf []) " a: true" [("a", some (.bool true))] := isProperty_true
  have hundefined : IsProperty (scopeOf []) " a: undefined " [("a", none)] :=
    isProperty_undefined.1
  have hempty : sortKeys ([] : Fields Value) = [] := sortKeys_of_named nofun
  have hspread := isProperty_spreadText (.cons hundefined .nil)
  simp only [List.flatten_singleton, applySettings, List.foldl, setProperty, Fields.erase,
    List.filter_nil, hempty, List.map_nil] at hspread
  refine ⟨htrue, hundefined, ?_, ?_⟩
  · have hbody := evaluate_objectText (.cons htrue (.cons hspread .nil))
    rw [sortKeys_of_named (by decide)] at hbody
    exact hbody
  · have hbody := evaluate_objectText (.cons htrue (.cons hundefined .nil))
    rw [sortKeys_of_named (by decide)] at hbody
    exact hbody

end CardTable.Script
