import CardTable.Proofs.Json.Tokens
import CardTable.Table.Row

set_option autoImplicit false

/-!
# Stored lists and mappings

A list or a mapping is stored as its compact JSON text, in whichever column. The text is read back
as the value that was stored, unless it is nested too deeply: the reader goes through 127 levels.

Doubles are printed with their shortest digits and are read in a way that rounds more than once, so
that the reader may miss a double by a place. That it does not is asked of each double of a value;
everything else about the numbers, also that a double is not read as a whole number, holds for all
of them.

## Main definitions

* `CardTable.Value.IsPart` — a value stands inside another one.
* `CardTable.Value.depth` — the number of levels of a value.
* `CardTable.Double.IsReadBack` — the text of a double is read as this double.
* `CardTable.Json.readFrom?` — the value of a text that is read in part.

## Main results

* `CardTable.Fields.ofEntries_of_nodup` — distinct names are kept in their order.
* `CardTable.Json.isRead` — a value is read where one must come.
* `CardTable.Column.read?_encode` — the text of a list or a mapping in a column is read back.
-/

namespace CardTable

/-! ## Fields -/

namespace Fields

variable {α : Type}

/-- Fields with new names go to the end in their order. -/
lemma insertAll_of_nodup {fields more : Fields α} (h : (keys (fields ++ more)).Nodup) :
    insertAll fields more = fields ++ more := by
  induction more generalizing fields with
  | nil => rw [insertAll, List.foldl_nil, List.append_nil]
  | cons field more ih =>
    obtain ⟨name, entry⟩ := field
    have hnew : name ∉ keys fields := by
      intro hmem
      rw [keys, List.map_append] at h
      exact (List.nodup_append.1 h).2.2 name hmem name (List.mem_cons_self ..) rfl
    have happend : fields ++ (name, entry) :: more = (fields ++ [(name, entry)]) ++ more := by simp
    rw [insertAll, List.foldl_cons, insert_of_not_mem hnew]
    exact (ih (happend ▸ h)).trans happend.symm

/-- **Distinct names** are kept in their order. -/
theorem ofEntries_of_nodup {fields : Fields α} (h : fields.keys.Nodup) :
    ofEntries fields = fields := by
  have hnodup : (keys ([] ++ fields)).Nodup := h
  exact insertAll_of_nodup hnodup

end Fields

/-! ## Parts and levels -/

namespace Value

/-- The value `part` is `v` itself or stands inside it. -/
inductive IsPart (part : Value) : Value → Prop
  | self : IsPart part part
  | item {items : List Value} {item : Value} (hmem : item ∈ items) (hpart : IsPart part item) :
      IsPart part (.list items)
  | field {fields : List (String × Value)} {field : String × Value} (hmem : field ∈ fields)
      (hpart : IsPart part field.2) : IsPart part (.mapping fields)

mutual

/-- The number of lists and mappings that stand inside each other. -/
def depth (v : Value) : Nat :=
  match v with
  | .list items => depthOfItems items + 1
  | .mapping fields => depthOfFields fields + 1
  | _ => 0

/-- The greatest depth of an item. -/
def depthOfItems (items : List Value) : Nat :=
  match items with
  | [] => 0
  | item :: rest => max item.depth (depthOfItems rest)

/-- The greatest depth of a field. -/
def depthOfFields (fields : List (String × Value)) : Nat :=
  match fields with
  | [] => 0
  | (_, value) :: rest => max value.depth (depthOfFields rest)

end

end Value

namespace Value

variable {part : Value}

/-- The parts of a list. -/
lemma isPart_list_iff {items : List Value} :
    part.IsPart (.list items) ↔ part = .list items ∨ ∃ item ∈ items, part.IsPart item := by
  constructor
  · intro hpart
    cases hpart with
    | self => exact .inl rfl
    | item hmem hpart => exact .inr ⟨_, hmem, hpart⟩
  · rintro (rfl | ⟨item, hmem, hpart⟩)
    · exact .self
    · exact .item hmem hpart

/-- The parts of a mapping. -/
lemma isPart_mapping_iff {fields : List (String × Value)} :
    part.IsPart (.mapping fields) ↔
      part = .mapping fields ∨ ∃ field ∈ fields, part.IsPart field.2 := by
  constructor
  · intro hpart
    cases hpart with
    | self => exact .inl rfl
    | field hmem hpart => exact .inr ⟨_, hmem, hpart⟩
  · rintro (rfl | ⟨field, hmem, hpart⟩)
    · exact .self
    · exact .field hmem hpart

end Value

/-- The text of the double is read as a number that equals it. -/
def Double.IsReadBack (x : Double) : Prop :=
  ∃ n, Json.read? (Json.text (.num (.double x))) = some (.num n) ∧ n.toDouble = x

namespace Json

/-! ## Reading on -/

/-- The value that is read in the end, if `progress` has been read and `cs` is left. -/
def readFrom? (progress : Progress) (cs : List Char) : Option Value :=
  (tokens? cs).bind fun ts => (ts.foldlM Progress.step progress).bind Progress.result?

/-- The next token is taken. -/
lemma readFrom?_eq {cs : List Char} (progress : Progress) (hne : cs ≠ [])
    (hblank : cs.head?.any isBlank = false) :
    readFrom? progress cs =
      (token? cs).bind fun (token, behind) => (progress.step token).bind (readFrom? · behind) := by
  obtain ⟨c, rest, rfl⟩ := List.exists_cons_of_ne_nil hne
  rw [readFrom?, tokens?_of_not_isBlank rest (by simpa using hblank)]
  cases token? (c :: rest) with
  | none => rfl
  | some first =>
    obtain ⟨token, behind⟩ := first
    cases hbehind : tokens? behind with
    | none => simp [readFrom?, hbehind]
    | some ts =>
      simp only [readFrom?, hbehind, Option.bind_some, Option.map_some, List.foldlM_cons,
        Option.bind_eq_bind, Option.bind_assoc]

/-- The token at the front of what is left is taken. -/
lemma TokenAt.readFrom? {cs behind : List Char} {token : Token} (h : TokenAt cs token behind)
    (progress : Progress) :
    readFrom? progress cs = (progress.step token).bind (Json.readFrom? · behind) := by
  obtain ⟨hblank, htoken⟩ := h
  have hne : cs ≠ [] := by
    rintro rfl
    cases htoken
  rw [readFrom?_eq progress hne hblank, htoken, Option.bind_some]

/-- Nothing is left behind a value. -/
lemma readFrom?_complete (v : Value) : readFrom? (.complete [] v) [] = some v := by
  rw [readFrom?, tokens?]
  rfl

/-- The text of a value is read from its beginning. -/
lemma read?_text (v : Value) : read? (text v) = readFrom? (.value []) (render v) := by
  rw [read?, text, String.toList_ofList]
  rfl

/-- **A double is read back** if the numeral that its text is stands for it. -/
theorem isReadBack_iff {x : Double} {numeral : Numeral}
    (hmark : numeral.fraction.isSome ∨ numeral.exponent.isSome)
    (h : numeral? (x.render .json) = some (numeral, [])) :
    x.IsReadBack ↔ numeral.double? = some x := by
  have hne : x.render .json ≠ [] := by
    intro heq
    rw [heq] at h
    cases h
  obtain ⟨hblank, htoken⟩ := token?_of_numeral? h
  have hread : read? (text (.num (.double x))) =
      numeral.double?.map fun y => .num (.double y) := by
    rw [read?_text, render, numberText, readFrom?_eq _ hne hblank, htoken,
      Numeral.value?_eq_double? hmark]
    cases numeral.double? with
    | none => rfl
    | some y => exact readFrom?_complete _
  constructor
  · rintro ⟨n, hn, hx⟩
    obtain ⟨y, hy, heq⟩ := Option.map_eq_some_iff.1 (hread.symm.trans hn)
    obtain rfl := Value.num.inj heq
    exact hx ▸ hy
  · intro hx
    exact ⟨.double x, by rw [hread, hx]; rfl, rfl⟩

/-- The text of a double that is read back is a token, which stands for the double and for no whole
number. -/
lemma tokenAt_double {x : Double} (hx : x.IsReadBack) {rest : List Char}
    (hrest : FollowsValue rest) :
    TokenAt (numberText (.double x) ++ rest) (.scalar (.num (.double x))) rest := by
  obtain ⟨numeral, hmark, hnumeral⟩ := exists_numeral_of_double x
  have halone := hnumeral [] nofun
  rw [List.append_nil] at halone
  have hdouble := (isReadBack_iff hmark halone).1 hx
  obtain ⟨hblank, htoken⟩ := token?_of_numeral? (hnumeral rest hrest)
  refine ⟨hblank, htoken.trans ?_⟩
  rw [Numeral.value?_eq_double? hmark, hdouble]
  rfl

/-! ## Values -/

/-- Where a value must come, `v` is read. Only too deep a level keeps it from being read, and it
does not begin with the end of a list. -/
structure IsRead (v : Value) : Prop where
  /-- It begins with a token. -/
  begins : ∀ rest, FollowsValue rest →
    ∃ token behind, TokenAt (render v ++ rest) token behind ∧ token ≠ .closeList
  /-- Behind it the reader goes on with the value. -/
  goesOn : ∀ (open_ : List Frame) (rest : List Char), FollowsValue rest →
    open_.length ≤ depthLimit → readFrom? (.value open_) (render v ++ rest) =
      if open_.length + v.depth ≤ depthLimit then readFrom? (.complete open_ v) rest else none

/-- A value that is one token. -/
lemma IsRead.of_token {v : Value} {token : Token} (hdepth : v.depth = 0)
    (hbegin : ∀ open_, Progress.beginValue open_ token = some (.complete open_ v))
    (h : ∀ rest, FollowsValue rest → TokenAt (render v ++ rest) token rest) : IsRead v where
  begins rest hrest := by
    refine ⟨token, rest, h rest hrest, ?_⟩
    rintro rfl
    cases hbegin []
  goesOn open_ rest hrest hopen := by
    rw [(h rest hrest).readFrom?, hdepth, Nat.add_zero, if_pos hopen, Progress.step, hbegin]
    rfl

/-- Behind an opening bracket the first item is read like any other. -/
lemma readFrom?_firstItem {cs behind : List Char} {token : Token} (h : TokenAt cs token behind)
    (hclose : token ≠ .closeList) (open_ : List Frame) :
    readFrom? (.firstItem open_) cs = readFrom? (.value (.list [] :: open_)) cs := by
  rw [h.readFrom?, h.readFrom?]
  cases token with
  | closeList => exact absurd rfl hclose
  | _ => rfl

/-- What follows an item of a list. -/
lemma followsValue_moreItems (items : List Value) (rest : List Char) :
    FollowsValue (renderMoreItems items ++ rest) := by
  cases items <;> rintro c ⟨⟩ <;> simp

/-- What follows a field of a mapping. -/
lemma followsValue_moreFields (fields : List (String × Value)) (rest : List Char) :
    FollowsValue (renderMoreFields fields ++ rest) := by
  rcases fields with - | ⟨⟨name, value⟩, more⟩ <;> rintro c ⟨⟩ <;> simp

/-- **The items of a list** behind its first one are read up to its closing bracket.

**Proof sketch.** Induction on the items, with the list that is open as the innermost frame. A
closing bracket ends it; otherwise there is a comma and an item, which is read on top of the frame,
and the bound on the levels is the one of the item and that of the others. -/
theorem readFrom?_moreItems {items : List Value} (hitems : ∀ item ∈ items, IsRead item)
    (read : List Value) (last : Value) {open_ : List Frame} (hopen : open_.length < depthLimit)
    (rest : List Char) :
    readFrom? (.complete (.list read :: open_) last) (renderMoreItems items ++ rest) =
      if open_.length + 1 + Value.depthOfItems items ≤ depthLimit then
        readFrom? (.complete open_ (.list (read.reverse ++ last :: items))) rest
      else none := by
  induction items generalizing read last with
  | nil =>
    have hclose : TokenAt (renderMoreItems [] ++ rest) .closeList rest := ⟨rfl, rfl⟩
    have hlevel : open_.length + 1 + Value.depthOfItems [] ≤ depthLimit := hopen
    rw [hclose.readFrom?, if_pos hlevel, ← List.reverse_cons]
    rfl
  | cons item items ih =>
    obtain ⟨hitem, hrest⟩ := List.forall_mem_cons.1 hitems
    have hcomma : TokenAt (renderMoreItems (item :: items) ++ rest) .comma
        (render item ++ (renderMoreItems items ++ rest)) := by
      rw [← List.append_assoc]
      exact ⟨rfl, rfl⟩
    rw [hcomma.readFrom?]
    change readFrom? (.value (.list (last :: read) :: open_)) _ = _
    rw [hitem.goesOn (_ :: open_) _ (followsValue_moreItems items rest) hopen, ih hrest, ← ite_and,
      List.reverse_cons, List.append_assoc]
    refine if_congr ?_ rfl rfl
    rw [Value.depthOfItems, List.length_cons]
    omega

/-- The name of a field and the colon behind it. -/
lemma readFrom?_name {open_ : List Frame} {entries : List (String × Value)} {progress : Progress}
    {name : String} (hname : progress.step (.text name) = some (.colon open_ entries name))
    (cs : List Char) : readFrom? progress (quote name ++ ':' :: cs) =
      readFrom? (.value (.mapping entries name :: open_)) cs := by
  have hcolon : TokenAt (':' :: cs) .colon cs := ⟨rfl, rfl⟩
  rw [(tokenAt_quote name _).readFrom?, hname, Option.bind_some, hcolon.readFrom?]
  rfl

/-- **The fields of a mapping** behind its first one are read up to its closing brace. -/
theorem readFrom?_moreFields {fields : List (String × Value)}
    (hfields : ∀ field ∈ fields, IsRead field.2) (read : List (String × Value)) (name : String)
    (last : Value) {open_ : List Frame} (hopen : open_.length < depthLimit) (rest : List Char) :
    readFrom? (.complete (.mapping read name :: open_) last) (renderMoreFields fields ++ rest) =
      if open_.length + 1 + Value.depthOfFields fields ≤ depthLimit then
        readFrom? (.complete open_
          (.mapping (Fields.ofEntries (read.reverse ++ (name, last) :: fields)))) rest
      else none := by
  induction fields generalizing read name last with
  | nil =>
    have hclose : TokenAt (renderMoreFields [] ++ rest) .closeMapping rest := ⟨rfl, rfl⟩
    have hlevel : open_.length + 1 + Value.depthOfFields [] ≤ depthLimit := hopen
    rw [hclose.readFrom?, if_pos hlevel, ← List.reverse_cons]
    rfl
  | cons field fields ih =>
    obtain ⟨next, value⟩ := field
    obtain ⟨(hvalue : IsRead value), hrest⟩ := List.forall_mem_cons.1 hfields
    have hcomma : TokenAt (renderMoreFields ((next, value) :: fields) ++ rest) .comma
        (quote next ++ ':' :: (render value ++ (renderMoreFields fields ++ rest))) := by
      rw [renderMoreFields]
      simp only [List.cons_append, List.append_assoc]
      exact ⟨rfl, rfl⟩
    rw [hcomma.readFrom?]
    change readFrom? (.name open_ ((name, last) :: read)) _ = _
    rw [readFrom?_name rfl,
      hvalue.goesOn (_ :: open_) _ (followsValue_moreFields fields rest) hopen, ih hrest,
      ← ite_and, List.reverse_cons, List.append_assoc]
    refine if_congr ?_ rfl rfl
    rw [Value.depthOfFields, List.length_cons]
    omega

/-- A list whose items are read. -/
lemma isRead_list {items : List Value} (hitems : ∀ item ∈ items, IsRead item) :
    IsRead (.list items) := by
  have hopens : ∀ rest, TokenAt (render (.list items) ++ rest) .openList
      (renderItems items ++ rest) := fun rest => ⟨rfl, rfl⟩
  refine ⟨fun rest _ => ⟨_, _, hopens rest, Token.noConfusion⟩, fun open_ rest hrest hopen => ?_⟩
  rw [(hopens rest).readFrom?, Value.depth]
  change (if open_.length < depthLimit then some (Progress.firstItem open_) else none).bind _ = _
  by_cases hlevel : open_.length < depthLimit
  · rw [if_pos hlevel, Option.bind_some]
    rcases items with - | ⟨item, items⟩
    · have hclose : TokenAt (renderItems [] ++ rest) .closeList rest := ⟨rfl, rfl⟩
      have hdepth : open_.length + (Value.depthOfItems [] + 1) ≤ depthLimit := hlevel
      rw [hclose.readFrom?, if_pos hdepth]
      rfl
    · obtain ⟨hitem, hmore⟩ := List.forall_mem_cons.1 hitems
      have hfollows := followsValue_moreItems items rest
      obtain ⟨token, behind, htoken, hne⟩ := hitem.begins _ hfollows
      rw [renderItems, List.append_assoc, readFrom?_firstItem htoken hne,
        hitem.goesOn (_ :: open_) _ hfollows hlevel, readFrom?_moreItems hmore [] item hlevel,
        ← ite_and]
      refine if_congr ?_ rfl rfl
      rw [Value.depthOfItems, List.length_cons]
      omega
  · rw [if_neg hlevel, if_neg (by omega)]
    rfl

/-- A mapping whose names are distinct and whose fields are read. -/
lemma isRead_mapping {fields : Fields Value} (hkeys : fields.keys.Nodup)
    (hfields : ∀ field ∈ fields, IsRead field.2) : IsRead (.mapping fields) := by
  have hopens : ∀ rest, TokenAt (render (.mapping fields) ++ rest) .openMapping
      (renderFields fields ++ rest) := fun rest => ⟨rfl, rfl⟩
  refine ⟨fun rest _ => ⟨_, _, hopens rest, Token.noConfusion⟩, fun open_ rest hrest hopen => ?_⟩
  rw [(hopens rest).readFrom?, Value.depth]
  change (if open_.length < depthLimit then some (Progress.firstName open_) else none).bind _ = _
  by_cases hlevel : open_.length < depthLimit
  · rw [if_pos hlevel, Option.bind_some]
    rcases fields with - | ⟨⟨name, value⟩, fields⟩
    · have hclose : TokenAt (renderFields [] ++ rest) .closeMapping rest := ⟨rfl, rfl⟩
      have hdepth : open_.length + (Value.depthOfFields [] + 1) ≤ depthLimit := hlevel
      rw [hclose.readFrom?, if_pos hdepth]
      rfl
    · obtain ⟨(hvalue : IsRead value), hmore⟩ := List.forall_mem_cons.1 hfields
      have htext : renderFields ((name, value) :: fields) ++ rest =
          quote name ++ ':' :: (render value ++ (renderMoreFields fields ++ rest)) := by
        simp [renderFields]
      have hfollows := followsValue_moreFields fields rest
      rw [htext, readFrom?_name rfl, hvalue.goesOn (_ :: open_) _ hfollows hlevel,
        readFrom?_moreFields hmore [] name value hlevel, ← ite_and, List.reverse_nil,
        List.nil_append, Fields.ofEntries_of_nodup hkeys]
      refine if_congr ?_ rfl rfl
      rw [Value.depthOfFields, List.length_cons]
      omega
  · rw [if_neg hlevel, if_neg (by omega)]
    rfl

/-- **A value is read where one must come**, if its mappings have distinct names and its doubles are
read back.

**Proof sketch.** Induction on the value. A scalar is one token. A list and a mapping are read item
by item, each by the induction hypothesis, on top of one more frame. -/
theorem isRead {v : Value}
    (hnames : ∀ fields, (Value.mapping fields).IsPart v → (Fields.keys fields).Nodup)
    (hdoubles : ∀ x, (Value.num (.double x)).IsPart v → x.IsReadBack) : IsRead v := by
  induction v using Value.induction with
  | null => exact .of_token rfl (fun _ => rfl) fun rest _ => ⟨rfl, rfl⟩
  | bool b => cases b <;> exact .of_token rfl (fun _ => rfl) fun rest _ => ⟨rfl, rfl⟩
  | num n =>
    cases n with
    | whole n hwide => exact .of_token rfl (fun _ => rfl) fun rest => tokenAt_intText hwide
    | double x => exact .of_token rfl (fun _ => rfl) fun rest => tokenAt_double (hdoubles x .self)
  | str s => exact .of_token rfl (fun _ => rfl) fun rest _ => tokenAt_quote s rest
  | list items ih =>
    exact isRead_list fun item hmem =>
      ih item hmem (fun fields h => hnames fields (.item hmem h)) fun x h => hdoubles x (.item hmem h)
  | mapping fields ih =>
    exact isRead_mapping (hnames fields .self) fun field hmem =>
      ih field hmem (fun fields h => hnames fields (.field hmem h)) fun x h =>
        hdoubles x (.field hmem h)

end Json

/-- **The text of a list or a mapping in a column is read back** as the value that was stored, if
its mappings have distinct names, its doubles are read back and it has no more than 127 levels; with
more levels it is not read.

**Proof sketch.** A list or a mapping is stored as its text. This is read where a value must come,
in front of nothing and on top of no frame (`Json.isRead`), which leaves the bound on its levels
only. -/
theorem Column.read?_encode (c : Column) {v : Value} (hnested : v.kind = .list ∨ v.kind = .mapping)
    (hnames : ∀ fields, (Value.mapping fields).IsPart v → (Fields.keys fields).Nodup)
    (hdoubles : ∀ x, (Value.num (.double x)).IsPart v → x.IsReadBack) :
    ∃ s, c.encode (some v) = .text s ∧ Json.read? s = if v.depth ≤ 127 then some v else none := by
  have htext : c.encode (some v) = .text (Json.text v) := by
    cases v with
    | list items => rfl
    | mapping fields => rfl
    | num n => cases n <;> rcases hnested with h | h <;> cases h
    | _ => rcases hnested with h | h <;> cases h
  refine ⟨_, htext, ?_⟩
  have hread := (Json.isRead hnames hdoubles).goesOn [] [] nofun (Nat.zero_le _)
  rw [List.append_nil, List.length_nil, Nat.zero_add, Json.readFrom?_complete] at hread
  exact (Json.read?_text v).trans hread

/-! ## A nested value -/

/-- Two and a half. -/
def twoAndAHalf : Double := ⟨false, 4612811918334230528, by decide⟩

/-- The digits two and five around a point stand for two and a half. -/
lemma double?_twoAndAHalf :
    Json.Numeral.double? ⟨false, ['2'], some ['5'], none⟩ = some twoAndAHalf := by
  have hscale : ∀ y : Double, Json.Numeral.scale? y (-1) = y.div? (Json.Numeral.tenPower 1) := by
    intro y
    rw [Json.Numeral.scale?, dif_neg (by decide), if_pos (by decide)]
    rfl
  have hquotient :
      (Double.ofInt? 25).bind (·.div? (Json.Numeral.tenPower 1)) = some twoAndAHalf := by
    decide +kernel
  have hwhole : Json.Numeral.takeDigits 0 ['2'] = (2, []) := rfl
  have hfraction : Json.Numeral.takeDigits 2 ['5'] = (25, []) := rfl
  simp only [Json.Numeral.double?, hwhole, hfraction, Option.getD_some]
  change ((Double.ofInt? 25).bind (Json.Numeral.scale? · (-1))).map _ = _
  simp only [hscale, hquotient]
  rfl

/-- Two and a half is read back. -/
lemma isReadBack_twoAndAHalf : twoAndAHalf.IsReadBack := by
  have htext : twoAndAHalf.render .json = ['2', '.', '5'] := by decide +kernel
  refine (Json.isReadBack_iff (.inl rfl) ?_).2 double?_twoAndAHalf
  rw [htext]
  rfl

/-- An attack of a card: numbers of all sorts, and characters that are escaped or are not ASCII. -/
def attack : Value :=
  .mapping [("name\n", .str "Poké \"Power\" \\ \x01"),
    ("damage", .list [.num (.whole 18446744073709551615 (by decide)),
      .num (.whole (-9223372036854775808) (by decide)), .num (.double twoAndAHalf), .null]),
    ("", .mapping [("cost", .list [])])]

/-- The attack is read back from a column that drifts. -/
theorem read?_encode_attack :
    (attack.kind = .list ∨ attack.kind = .mapping) ∧ attack.depth = 3 ∧
      ∃ s, Column.encode ⟨"attack", .text, 0, .field, true⟩ (some attack) = .text s ∧
        Json.read? s = some attack := by
  have hparts : ∀ part : Value, part.IsPart attack → (∀ fields, part = .mapping fields →
      (Fields.keys fields).Nodup) ∧ ∀ x, part = .num (.double x) → x.IsReadBack := by
    intro part hpart
    simp only [attack, Value.isPart_mapping_iff, Value.isPart_list_iff, List.mem_cons,
      List.not_mem_nil, or_false, false_and, exists_eq_or_imp, exists_eq_left, exists_false] at hpart
    obtain rfl | hleaf | (rfl | hleaf | hleaf | hleaf | hleaf) | rfl | rfl := hpart
    all_goals refine ⟨fun fields h => ?_, fun x h => ?_⟩ <;> cases h
    any_goals cases hleaf
    · decide
    · exact isReadBack_twoAndAHalf
    · decide
  obtain ⟨s, hs, hread⟩ := Column.read?_encode ⟨"attack", .text, 0, .field, true⟩ (v := attack)
    (.inr rfl) (fun fields hpart => (hparts _ hpart).1 fields rfl)
    (fun x hpart => (hparts _ hpart).2 x rfl)
  exact ⟨.inr rfl, rfl, s, hs, hread.trans (if_pos (by decide))⟩

end CardTable
