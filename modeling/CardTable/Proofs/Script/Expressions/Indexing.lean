import CardTable.Proofs.Script.Expressions.KeyOrder
import CardTable.Proofs.Script.Expressions.OptionalChains

set_option autoImplicit false

/-!
# Indexing lists and texts

The items of a list and the characters of a text are read by position in two ways: by an access in
brackets, which reads the name of a property as a number, and from the object literal into which
they are spread, which names them by their positions. Both agree on every name but those that write
a position in another way than in its shortest form.

## Main definitions

* `CardTable.Script.Writes` — the names that are read as a number.

## Main results

* `CardTable.Script.positionOf?_eq_some_iff` — what names are read as.
* `CardTable.Script.get?_positioned` — items that are spread, by name.
* `CardTable.Script.evaluateIn_index_spread` — indexing and spreading.
-/

namespace CardTable

open CardTable.Text (digitsValue)

namespace Script

open Reader

/-! ## Names that are positions -/

/-- The name `key` writes the number `i`: in decimal digits, with or without zeros and a plus sign
in front of them. -/
def Writes (key : String) (i : Nat) : Prop :=
  ∃ sign zeros, sign ∈ [[], ['+']] ∧ (∀ c ∈ zeros, c = '0') ∧
    key.toList = sign ++ (zeros ++ Nat.toDigits 10 i)

section Positions

variable {key : String} {i j : Nat} {items : List Value}

/-- Digits behind a plus sign are read as the number that they write. -/
lemma positionOf?_plus {digits : List Char} (hkey : key.toList = '+' :: digits) :
    positionOf? key =
      if digits ≠ [] ∧ digits.all Char.isDigit then some (digitsValue digits) else none := by
  simp only [positionOf?, hkey]

/-- The same without a sign. -/
lemma positionOf?_plain (hkey : key.toList.head? ≠ some '+') :
    positionOf? key = if key.toList ≠ [] ∧ key.toList.all Char.isDigit then
      some (digitsValue key.toList) else none := by
  unfold positionOf?
  cases hcs : key.toList with
  | nil => rfl
  | cons c rest =>
    have hc : c ≠ '+' := by
      rintro rfl
      exact hkey (by rw [hcs]; rfl)
    simp [hc]

/-- Digits behind zeros are read as the number that they write. -/
lemma position_of_zeros {zeros digits : List Char} (hzeros : ∀ c ∈ zeros, c = '0')
    (hdigits : digits = zeros ++ Nat.toDigits 10 i) :
    (∀ c ∈ digits, c.isDigit = true) ∧
      (if digits ≠ [] ∧ digits.all Char.isDigit then some (digitsValue digits) else none) =
        some i := by
  have hall : ∀ c ∈ digits, c.isDigit = true := by
    intro c hc
    rcases List.mem_append.1 (hdigits ▸ hc) with hc | hc
    · rw [hzeros c hc]
      rfl
    · exact Nat.isDigit_of_mem_toDigits (by decide) (by decide) hc
  refine ⟨hall, ?_⟩
  rw [if_pos ⟨by simp [hdigits], List.all_eq_true.2 hall⟩, hdigits,
    Text.digitsValue_zeros_append hzeros, Text.digitsValue_toDigits]

/-- **What names are read as**: the numbers that they write. -/
theorem positionOf?_eq_some_iff : positionOf? key = some i ↔ Writes key i := by
  constructor
  · intro h
    by_cases hplus : key.toList.head? = some '+'
    · obtain ⟨digits, hkey⟩ := List.head?_eq_some_iff.1 hplus
      rw [positionOf?_plus hkey, Option.ite_none_right_eq_some, List.all_eq_true] at h
      obtain ⟨⟨hne, hdigits⟩, hvalue⟩ := h
      obtain ⟨zeros, hzeros, hsame⟩ := Text.exists_zeros hne hdigits
      rw [Option.some.inj hvalue] at hsame
      exact ⟨['+'], zeros, by simp, hzeros, by rw [hkey, hsame]; rfl⟩
    · rw [positionOf?_plain hplus, Option.ite_none_right_eq_some, List.all_eq_true] at h
      obtain ⟨⟨hne, hdigits⟩, hvalue⟩ := h
      obtain ⟨zeros, hzeros, hsame⟩ := Text.exists_zeros hne hdigits
      rw [Option.some.inj hvalue] at hsame
      exact ⟨[], zeros, by simp, hzeros, hsame⟩
  · rintro ⟨sign, zeros, hsign, hzeros, hkey⟩
    simp only [List.mem_cons, List.not_mem_nil, or_false] at hsign
    rcases hsign with rfl | rfl
    · obtain ⟨hdigits, hvalue⟩ := position_of_zeros hzeros hkey
      rw [positionOf?_plain, hvalue]
      intro hplus
      have hdigit := hdigits '+' (List.mem_of_mem_head? hplus)
      exact absurd hdigit (by decide)
    · have hplus : key.toList = '+' :: (zeros ++ Nat.toDigits 10 i) := hkey
      rw [positionOf?_plus hplus, (position_of_zeros hzeros rfl).2]

/-- A name writes one number at most. -/
lemma Writes.unique (h : Writes key i) (h' : Writes key j) : i = j :=
  Option.some.inj ((positionOf?_eq_some_iff.2 h).symm.trans (positionOf?_eq_some_iff.2 h'))

/-- The shortest form of a number writes it. -/
lemma writes_repr (i : Nat) : Writes (Nat.repr i) i :=
  ⟨[], [], by simp, nofun, Nat.toList_repr⟩

/-- The items that are spread have distinct names. -/
lemma nodup_keys_positioned (items : List Value) : (positioned items).keys.Nodup := by
  have hkeys : (positioned items).keys = (List.range' 0 items.length).map Nat.repr := by
    rw [← List.zipIdx_map_snd, positioned, Fields.keys, List.map_map, List.map_map]
    rfl
  have hinjective : Function.Injective Nat.repr := fun i j h =>
    (writes_repr i).unique (h ▸ writes_repr j)
  rw [hkeys, List.nodup_map_iff hinjective]
  exact List.nodup_range'

/-- **Items that are spread, by name**: a name selects the item at the position of which it is the
shortest form. -/
theorem get?_positioned {item : Value} :
    Fields.get? (positioned items) key = some item ↔
      ∃ i, key = Nat.repr i ∧ items[i]? = some item := by
  rw [Fields.get?_eq_some_iff (nodup_keys_positioned items), positioned, List.mem_map]
  constructor
  · rintro ⟨⟨_, i⟩, hmem, heq⟩
    obtain ⟨rfl, rfl⟩ := Prod.mk.inj heq
    exact ⟨i, rfl, List.mem_zipIdx_iff_getElem?.1 hmem⟩
  · rintro ⟨i, rfl, hitem⟩
    exact ⟨(item, i), List.mem_zipIdx_iff_getElem?.2 hitem, rfl⟩

end Positions

/-! ## Accesses to names -/

section Accesses

variable {bindings : List (String × Value)} {e o chain : String} {k v w : Option Value}
  {links : List Link}

/-- A chain of accesses does not begin with a round bracket. -/
lemma atSign_of_links {us vs : List Lexeme}
    (h : Reads substitutionExpr .links us (.links links) vs) :
    atSign '(' us = false := by
  cases h with
  | linksEnd hends => exact atSign_of_endsLinks hends
  | named optional ht => exact atSign_eq_false (by cases optional <;> simp [ht, dot])
  | computed ht => exact ht.atSign_eq_false (by decide) _
  | optionalComputed ht => exact atSign_eq_false (by simp [ht])
  | nonNull ht => exact ht.atSign_eq_false (by decide) _

/-- A chain of accesses behind a name. -/
lemma exists_evaluateIn_access (bindings : List (String × Value)) (hchain : IsChain chain links)
    (hfirst : ∀ c ∈ chain.toList.head?, continuesWord c = false) :
    ∃ links', LinksRefine links links' ∧ evaluateIn (scopeOf bindings) ("return x" ++ chain) =
      (lookup (scopeOf bindings) "x" >>= fun v =>
        (evalLinks (scopeOf bindings) (some v) links').map (·.getD none)) := by
  obtain ⟨us, node, hus, hrefines, -, hlinks⟩ := hchain.exists_lexemes (by decide) 8
  obtain ⟨links', rfl, hrefines⟩ := hrefines.exists_links
  refine ⟨links', hrefines, ?_⟩
  have hlinks := hlinks [] ⟨rfl, rfl⟩
  rw [List.append_nil] at hlinks
  have hstop : (locate 8 chain.toList).head?.any (fun g => continuesWord g.char) = false := by
    cases hcs : chain.toList with
    | nil => rfl
    | cons c cs => simpa [locate] using hfirst c (by simp [hcs])
  obtain ⟨t, hscans, ht, -⟩ := @exists_scans_word 'x' [] rfl rfl (List.forall_mem_nil _) 7 _ hstop
  have hlexemes : lexemes (locate 7 ("x" ++ chain).toList) = .ok (t :: us) := by
    rw [String.toList_append, locate_append]
    exact hscans.lexemes_eq.trans (by rw [hus]; rfl)
  have hexpression := reads_expression_of_unary
    (.plain (.name ht rfl (by decide) (atSign_of_links hlinks)) hlinks) (.inl rfl)
  have hbody : "return x" ++ chain = "return " ++ ("x" ++ chain) := by
    rw [← String.append_assoc]
    rfl
  rw [hbody, evaluateIn_of_reads _ hlexemes hexpression, eval_linked]
  simp only [Expr.eval]
  cases lookup (scopeOf bindings) "x" with
  | error f => rfl
  | ok v => cases evalLinks (scopeOf bindings) (some v) links' <;> rfl

/-- An operand in square brackets is an access. -/
lemma IsOperand.exists_isChain (he : IsOperand bindings e k) :
    ∃ key, IsChain ("[" ++ e ++ "]") [.computed false key] ∧ key.eval (scopeOf bindings) = .ok k := by
  let stop := 1 + Text.byteCount (e.toList ++ [']'])
  obtain ⟨tree, hfills, heval⟩ := he.exists_fills
  obtain ⟨round, hround, hroundSign, -⟩ := exists_scans_sign (c := ')') [] rfl stop
  obtain ⟨ts, close, node, hscans, hclose, hrefines, -, hreads⟩ :=
    hfills.closed (by decide) (d := ']') (by decide) 1 [⟨stop, ')'⟩]
  obtain ⟨key, rfl, hrefines⟩ := hrefines.exists_expr
  obtain ⟨open', hopen, hopenSign, -⟩ :=
    exists_scans_sign (c := '[') (locate 1 (e.toList ++ [']']) ++ [⟨stop, ')'⟩]) rfl 0
  have htext : locate 0 (("[" ++ e ++ "]").toList ++ [')']) =
      ⟨0, '['⟩ :: (locate 1 (e.toList ++ [']']) ++ [⟨stop, ')'⟩]) := by
    rw [String.toList_append, String.toList_append, List.append_assoc, List.append_assoc,
      ← List.append_assoc e.toList]
    exact congrArg _ (locate_append 1 (e.toList ++ [']']) [')'])
  refine ⟨key, ⟨open' :: (ts ++ [close]), round, ?_, hroundSign, ?_⟩, hrefines _ _ heval⟩
  · rw [htext]
    exact hopen.append (hscans.append hround)
  · have hindex := Reads.index (hreads [close, round] (.of_isPunct hclose (by decide) _)) hclose
    have hlinks : Reads substitutionExpr .links [round] (.links []) [round] :=
      .linksEnd (endsLinks_of_isPunct hroundSign (by decide))
    have hchain := Reads.computed hopenSign hindex hlinks
    simpa using hchain

/-- An access by name reads the property. -/
lemma evalLinks_computed {key : Expr} (hkey : key.eval (scopeOf bindings) = .ok k)
    (hmember : member v (propertyKey k) = .ok w) :
    evalLinks (scopeOf bindings) (some v) [.computed false key] = .ok (some w) := by
  rw [evalLinks, hkey, ok_bind, access, Bool.false_and, if_neg Bool.false_ne_true, hmember]
  rfl

/-- A name is an operand. -/
lemma isOperand_of_name {t close : Lexeme} {word : String}
    (hscans : Scans (locate 0 (e.toList ++ [')'])) [t, close] []) (hclose : IsPunct ')' close)
    (ht : t.token = .word word) (hconstant : wordConstant? word = none)
    (hsupported : word ∉ unsupportedWords) (hword : lookup (scopeOf bindings) word = .ok v) :
    IsOperand bindings e v := by
  have hend : IsEnd [close] := .of_isPunct hclose (by decide) []
  have hname : Reads substitutionExpr .primary [t, close] (.expr (.name word)) [close] :=
    .name ht hconstant hsupported (hclose.atSign_eq_false (by decide) [])
  have hreads := reads_expression_of_unary (reads_unary_of_primary hname hend) hend
  exact ⟨[t], close, ⟨0, 0⟩, .name word, hscans, hclose, (expression_isWhole_iff _).2 hreads,
    by rw [Expr.eval, hword]⟩

/-- **An access behind a name** reads the property that its key selects. -/
theorem evaluateIn_name_index (hx : lookup (scopeOf bindings) "x" = .ok v)
    (he : IsOperand bindings e k) (hmember : member v (propertyKey k) = .ok w) :
    evaluateIn (scopeOf bindings) ("return x[" ++ e ++ "]") = .ok w := by
  obtain ⟨key, hchain, hkey⟩ := he.exists_isChain
  have hfirst : ∀ c ∈ ("[" ++ e ++ "]").toList.head?, continuesWord c = false := by
    rw [String.toList_append, String.toList_append]
    rintro _ ⟨⟩
    rfl
  obtain ⟨links, hrefines, hbody⟩ := exists_evaluateIn_access bindings hchain hfirst
  have hsame : "return x[" ++ e ++ "]" = "return x" ++ ("[" ++ e ++ "]") := by
    simp only [← String.append_assoc]
    rfl
  rw [hsame, hbody, hx, ok_bind, hrefines _ _ _ (evalLinks_computed hkey hmember)]
  rfl

/-- The same behind an operand in brackets. -/
lemma evaluateIn_bracketed_index (ho : IsOperand bindings o v) (he : IsOperand bindings e k)
    (hmember : member v (propertyKey k) = .ok w) :
    evaluateIn (scopeOf bindings) ("return (" ++ o ++ ")" ++ ("[" ++ e ++ "]")) = .ok w := by
  obtain ⟨key, hchain, hkey⟩ := he.exists_isChain
  obtain ⟨links, hrefines, -, hbody⟩ := exists_evaluateIn_chain ho hchain
  rw [hbody, hrefines _ _ _ (evalLinks_computed hkey hmember)]
  rfl

/-- An object literal into which a name is spread is an operand. -/
lemma isOperand_spread (hx : lookup (scopeOf bindings) "x" = .ok v) :
    IsOperand bindings "\x7b...x\x7d"
      (some (.mapping (sortKeys (Fields.insertAll [] (spreadFields v))))) := by
  have hscans : ∃ t₁ t₂ t₃ t₄ t₅ : Lexeme,
      Scans (locate 0 ("\x7b...x\x7d".toList ++ [')'])) [t₁, t₂, t₃, t₄, t₅] [] ∧
        IsPunct '\x7b' t₁ ∧ t₂.token = .sign .spread ∧ t₃.token = .word "x" ∧ IsPunct '\x7d' t₄ ∧
        IsPunct ')' t₅ :=
    ⟨_, _, _, _, _, .first rfl (by decide) rfl (.first rfl (by decide) rfl
      (.first rfl (by decide) rfl (.first rfl (by decide) rfl
        (.first rfl (by decide) rfl (.nil []))))), rfl, rfl, rfl, rfl, rfl⟩
  obtain ⟨t₁, t₂, t₃, t₄, t₅, hscans, h₁, h₂, h₃, h₄, h₅⟩ := hscans
  have hinside : IsEnd [t₄, t₅] := .of_isPunct h₄ (by decide) _
  have hend : IsEnd [t₅] := .of_isPunct h₅ (by decide) []
  have hname : Reads substitutionExpr .primary [t₃, t₄, t₅] (.expr (.name "x")) [t₄, t₅] :=
    .name h₃ rfl (by decide) (h₄.atSign_eq_false (by decide) _)
  have hsource := reads_expression_of_unary (reads_unary_of_primary hname hinside) hinside
  have hobject := Reads.object h₁ (.lastEntry (.spreadEntry h₂ hsource) h₄)
  have hreads := reads_expression_of_unary (reads_unary_of_primary hobject hend) hend
  refine ⟨[t₁, t₂, t₃, t₄], t₅, ⟨0, 0⟩, _, hscans, h₅, (expression_isWhole_iff _).2 hreads, ?_⟩
  simp only [Expr.eval, evalEntries, hx, ok_bind]

end Accesses

/-! ## Indexing and spreading -/

section Items

variable {v : Option Value} {items : List Value} {key : String}

/-- Only lists and texts have items. -/
lemma of_spreadItems (h : spreadItems v = .ok items) :
    v = some (.list items) ∨ ∃ s, v = some (.str s) ∧ items = charTexts s := by
  unfold spreadItems at h
  split at h
  · exact .inl (congrArg _ (congrArg _ (Except.ok.inj h)))
  · exact .inr ⟨_, rfl, (Except.ok.inj h).symm⟩
  · cases h

/-- The items of a list or of a text are its properties by position. -/
lemma member_of_spreadItems (h : spreadItems v = .ok items) (hkey : key ≠ "length") :
    member v key = .ok ((positionOf? key).bind (items[·]?)) := by
  obtain rfl | ⟨s, rfl, rfl⟩ := of_spreadItems h
  · rw [member, if_neg hkey]
  · rw [member, if_neg hkey]

/-- They are spread under their positions. -/
lemma spreadFields_of_spreadItems (h : spreadItems v = .ok items) :
    spreadFields v = positioned items := by
  obtain rfl | ⟨s, rfl, rfl⟩ := of_spreadItems h
  · rfl
  · rfl

/-- The properties of a literal into which items are spread. -/
lemma member_spread (items : List Value) (key : String) :
    member (some (.mapping (sortKeys (Fields.insertAll [] (positioned items))))) key =
      .ok (Fields.get? (positioned items) key) := by
  have hspread : (Fields.insertAll [] (positioned items)).keys.Nodup :=
    Fields.nodup_keys_insertAll _ List.nodup_nil
  rw [member, Fields.get?_of_perm ((sortKeys_perm _).map Prod.fst |>.nodup_iff.2 hspread)
    (sortKeys_perm _), Fields.get?_insertAll [] (nodup_keys_positioned items), Fields.get?,
    Option.or_none]

/-- **Indexing and spreading.** An access in brackets selects the item at the position that its key
writes, and the literal into which the items are spread holds it under the shortest form of the
position only. Both give the same unless the key writes the position of an item in another form.

**Proof sketch.** The list answers by the position that the key writes (`positionOf?_eq_some_iff`),
which may be padded or signed; the literal has one field for each position, named by its shortest
form (`get?_positioned`). Both have the same item if the key is the shortest form of its position,
and the literal has none otherwise. -/
theorem evaluateIn_index_spread {bindings : List (String × Value)} {target : Value}
    (hx : lookup (scopeOf bindings) "x" = .ok (some target))
    (hitems : spreadItems (some target) = .ok items)
    (hy : lookup (scopeOf bindings) "y" = .ok (some (.str key))) (hkey : key ≠ "length") :
    ∃ indexed spread, evaluateIn (scopeOf bindings) "return x[y]" = .ok indexed ∧
      evaluateIn (scopeOf bindings) "return (\x7b...x\x7d)[y]" = .ok spread ∧
      (∀ item, indexed = some item ↔ ∃ i, Writes key i ∧ items[i]? = some item) ∧
      (∀ item, spread = some item ↔ ∃ i, key = Nat.repr i ∧ items[i]? = some item) ∧
      (indexed = spread ↔ ∀ i < items.length, Writes key i → key = Nat.repr i) := by
  have hname : IsOperand bindings "y" (some (.str key)) :=
    isOperand_of_name (.first rfl (by decide) rfl (.first rfl (by decide) rfl (.nil []))) rfl rfl
      rfl (by decide) hy
  have hname_key : propertyKey (some (.str key)) = key := String.ofList_toList
  have hindexed : ∀ item, (positionOf? key).bind (items[·]?) = some item ↔
      ∃ i, Writes key i ∧ items[i]? = some item := by
    intro item
    simp only [Option.bind_eq_some_iff, positionOf?_eq_some_iff]
  have hin_place : "return x[y]" = "return x[" ++ "y" ++ "]" := by decide
  have hin_literal :
      "return (\x7b...x\x7d)[y]" = "return (" ++ "\x7b...x\x7d" ++ ")" ++ ("[" ++ "y" ++ "]") := by
    decide
  have hliteral := isOperand_spread hx
  rw [spreadFields_of_spreadItems hitems] at hliteral
  have hmember := member_of_spreadItems hitems hkey
  have hmember_spread := member_spread items key
  rw [← hname_key] at hmember hmember_spread
  refine ⟨_, _, hin_place ▸ evaluateIn_name_index hx hname hmember,
    hin_literal ▸ evaluateIn_bracketed_index hliteral hname hmember_spread, ?_⟩
  rw [hname_key]
  refine ⟨hindexed, fun _ => get?_positioned, fun hsame i hi hwrites => ?_, fun hcanonical => ?_⟩
  · obtain ⟨j, hj, -⟩ := get?_positioned.1 (hsame.symm.trans
      ((hindexed _).2 ⟨i, hwrites, List.getElem?_eq_getElem hi⟩))
    rw [hwrites.unique (hj ▸ writes_repr j), hj]
  · refine Option.ext fun item => ?_
    rw [hindexed, get?_positioned]
    constructor
    · rintro ⟨i, hwrites, hitem⟩
      obtain ⟨hi, -⟩ := List.getElem?_eq_some_iff.1 hitem
      exact ⟨i, hcanonical i hi hwrites, hitem⟩
    · rintro ⟨i, rfl, hitem⟩
      exact ⟨i, writes_repr i, hitem⟩

/-- The key `00` selects the first item of a list, which the literal does not hold under this
name. -/
theorem evaluateIn_index_zeros :
    let scope := scopeOf [("x", .list [.bool true]), ("y", .str "00")]
    lookup scope "x" = .ok (some (.list [.bool true])) ∧ lookup scope "y" = .ok (some (.str "00")) ∧
      evaluateIn scope "return x[y]" = .ok (some (.bool true)) ∧
      evaluateIn scope "return (\x7b...x\x7d)[y]" = .ok none := by
  have hx : lookup (scopeOf [("x", .list [.bool true]), ("y", .str "00")]) "x" =
      .ok (some (.list [.bool true])) := rfl
  have hy : lookup (scopeOf [("x", .list [.bool true]), ("y", .str "00")]) "y" =
      .ok (some (.str "00")) := rfl
  obtain ⟨indexed, spread, hin_place, hin_literal, hindexed, hspread, -⟩ :=
    evaluateIn_index_spread hx rfl hy (by decide)
  have hwrites : Writes "00" 0 := ⟨[], ['0'], by decide, by decide, by decide⟩
  have htrue : indexed = some (.bool true) := (hindexed _).2 ⟨0, hwrites, rfl⟩
  have hnone : spread = none := by
    refine Option.eq_none_iff_forall_ne_some.2 fun item hitem => ?_
    obtain ⟨i, hi, -⟩ := (hspread item).1 hitem
    have hzero : i = 0 := (hi ▸ writes_repr i).unique hwrites
    exact absurd (hi.trans (congrArg _ hzero)) (by decide)
  exact ⟨hx, hy, hin_place.trans (congrArg _ htrue), hin_literal.trans (congrArg _ hnone)⟩

end Items

end Script

end CardTable
