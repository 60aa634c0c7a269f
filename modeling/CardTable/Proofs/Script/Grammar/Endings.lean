import CardTable.Proofs.Script.Lexer.Scanning

set_option autoImplicit false

/-!
# What stands behind an expression

A part of an expression that is read up to a comma or to a closing bracket is read in the same way
if other tokens stand there instead, as long as the part ends in front of them as well.

## Main definitions

* `CardTable.Script.Reader.EndsPart` — the tokens in front of which a part ends.
* `CardTable.Script.Reader.Replaceable` — the tokens behind a part may be replaced.

## Main results

* `CardTable.Script.Reader.Reads.isSuffix` — what is behind a part ends the token list.
* `CardTable.Script.Reader.Reads.replaceEnd` — a part in front of other tokens.
-/

namespace CardTable.Script

namespace Reader

/-! ## What is read ends the token list -/

/-- What is behind a type ends the token list. -/
lemma isSuffix_skipType (stops : Char → Bool) (depth : Nat) (begun : Bool) (ts : List Lexeme) :
    skipType stops depth begun ts <:+ ts := by
  induction ts generalizing depth begun with
  | nil => exact List.suffix_rfl
  | cons t ts ih =>
    by_cases hends : endsType stops depth begun t
    · simp only [skipType_of_ends hends, List.suffix_rfl]
    · rw [skipType_of_not_ends hends]
      exact (ih _ _).trans (List.suffix_cons ..)

/-- What is behind casts ends the token list. -/
lemma isSuffix_skipCasts (ts : List Lexeme) : skipCasts ts <:+ ts := by
  cases ts with
  | nil => simp only [skipCasts.eq_def, List.suffix_rfl]
  | cons t ts =>
    by_cases hcast : startsCast t
    · rw [skipCasts_of_startsCast hcast]
      exact (isSuffix_skipType ..).trans (List.suffix_cons ..)
    · simp only [skipCasts_of_not_startsCast hcast, List.suffix_rfl]

/-- What is behind a part ends the token list. -/
theorem Reads.isSuffix {inner : Substitution → Expr} {part : Part} {ts us : List Lexeme}
    {node : Node} (h : Reads inner part ts node us) : us <:+ ts := by
  induction h with
  | expression _ _ ih => exact (isSuffix_skipCasts _).trans ih
  | plain _ _ ihprimary ihlinks => exact ihlinks.trans ihprimary
  | linksEnd => exact List.suffix_rfl
  | named _ _ _ _ ih => exact ih.trans ((List.suffix_cons ..).trans (List.suffix_cons ..))
  | computed _ _ _ ihindex ihlinks =>
    exact (ihlinks.trans ihindex).trans (List.suffix_cons ..)
  | optionalComputed _ _ _ _ ihindex ihlinks =>
    exact (ihlinks.trans ihindex).trans ((List.suffix_cons ..).trans (List.suffix_cons ..))
  | index _ _ ih => exact (List.suffix_cons ..).trans ih
  | bracketed _ _ _ ih => exact ((List.suffix_cons ..).trans ih).trans (List.suffix_cons ..)
  | computedProperty _ _ _ ihindex ihvalue =>
    exact (ihvalue.trans ihindex).trans (List.suffix_cons ..)
  | moreEntries _ _ _ ihentry ihentries => exact (ihentries.trans (List.suffix_cons ..)).trans ihentry
  | lastEntry _ _ ih => exact (List.suffix_cons ..).trans ih
  | valueItem _ ih => exact ih
  | moreItems _ _ _ ihitem ihitems => exact (ihitems.trans (List.suffix_cons ..)).trans ihitem
  | lastItem _ _ ih => exact (List.suffix_cons ..).trans ih
  | atom | name | shorthand | noEntry | noItem => exact List.suffix_cons ..
  | signed _ _ _ ih | nonNull _ _ _ ih | object _ _ ih | array _ _ ih | propertyValue _ _ ih
  | spreadEntry _ _ ih | property _ _ ih | spreadItem _ _ ih | hole _ _ ih =>
    exact ih.trans (List.suffix_cons ..)

/-! ## Where a part ends -/

/-- The part ends in front of the tokens. -/
def EndsPart (stub : List Lexeme) : Part → Prop
  | .expression | .propertyValue | .item => IsEnd stub
  | .entry => atSign ',' stub = true ∨ atSign '\x7d' stub = true
  | .unary | .links | .primary => endsLinks stub = true ∧ atSign '=' stub = false
  | .index | .entries | .items => True

section Ends

variable {c d : Char} {close : Lexeme} {ts us tail stub : List Lexeme}

/-- Where no access goes on there is no opening bracket. -/
lemma atSign_of_endsLinks (h : endsLinks ts = true) : atSign '(' ts = false := by
  cases ts with
  | nil => rfl
  | cons t rest =>
    refine atSign_eq_false fun ht => ?_
    simp [endsLinks, ht] at h

/-- Where an expression ends its accesses do as well. -/
lemma IsEnd.endsPart_unary (h : IsEnd stub) : EndsPart stub .unary :=
  ⟨h.ends.1, h.ends.2.2 '=' (by decide)⟩

/-- Where a part of an object literal ends its expression does as well. -/
lemma isEnd_of_entry (h : EndsPart stub .entry) : IsEnd stub := by
  rcases h with h | h
  · obtain ⟨t, rest, rfl, ht⟩ := exists_of_atSign h
    exact .of_isPunct ht (by decide) rest
  · obtain ⟨t, rest, rfl, ht⟩ := exists_of_atSign h
    exact .of_isPunct ht (by decide) rest

/-- The sign at the front of tokens behind which others stand. -/
lemma atSign_append (hts : ts ≠ []) (us us' : List Lexeme) :
    atSign c (ts ++ us) = atSign c (ts ++ us') := by
  obtain ⟨t, rest, rfl⟩ := List.exists_cons_of_ne_nil hts
  rw [Bool.eq_iff_iff, List.cons_append, List.cons_append, atSign_cons_iff, atSign_cons_iff]

/-- The same if the sign stands nowhere behind them. -/
lemma atSign_replaceEnd (hts : atSign c (ts ++ us) = false)
    (hstub : ts = [] → atSign c stub = false) : atSign c (ts ++ stub) = false := by
  by_cases h : ts = []
  · rw [h]
    exact hstub h
  · rwa [atSign_append h stub us]

/-- No access goes on in front of a token that begins none, an exclamation mark apart. -/
lemma endsLinks_cons_iff {t : Lexeme} : endsLinks (t :: ts) = true ↔
    t.token ≠ .sign .optionalDot ∧ (∀ c ∈ ['.', '[', '('], ¬ IsPunct c t) ∧
      (IsPunct '!' t → atSign '=' ts = true) := by
  unfold endsLinks IsPunct
  dsimp only
  split <;> simp_all

/-- Accesses that end in front of a sign end in front of other tokens. -/
lemma endsLinks_replaceEnd (hclose : IsPunct c close) (hc : c ≠ '=')
    (h : endsLinks (us ++ close :: tail) = true) (hstub : us = [] → endsLinks stub = true) :
    endsLinks (us ++ stub) = true := by
  cases us with
  | nil => exact hstub rfl
  | cons t rest =>
    rw [List.cons_append, endsLinks_cons_iff] at h ⊢
    obtain ⟨hdot, hsigns, hequals⟩ := h
    refine ⟨hdot, hsigns, fun ht => ?_⟩
    have hnext := hequals ht
    have hrest : rest ≠ [] := by
      rintro rfl
      rw [List.nil_append, hclose.atSign_eq_false hc] at hnext
      cases hnext
    rwa [atSign_append hrest stub (close :: tail)]

end Ends

/-! ## Types and casts in front of other tokens -/

section Casts

variable {stops : Char → Bool} {depth : Nat} {begun : Bool} {c : Char} {close t : Lexeme}
  {front rest ts us tail stub : List Lexeme}

/-- A type that does not go on ends at once. -/
lemma endsType_of_skipType_self (h : skipType stops depth begun (t :: rest) = t :: rest) :
    endsType stops depth begun t := by
  by_contra hends
  rw [skipType_of_not_ends hends] at h
  have hlength := length_skipType_le stops (depthBehind depth t) true rest
  rw [h, List.length_cons] at hlength
  omega

/-- A type that is skipped up to `rest` goes on there in the same way whatever stands there. -/
lemma exists_skipType_append (h : skipType stops depth begun (front ++ rest) = rest) :
    ∃ depth' begun', skipType stops depth' begun' rest = rest ∧
      ∀ more, skipType stops depth begun (front ++ more) = skipType stops depth' begun' more := by
  induction front generalizing depth begun with
  | nil => exact ⟨depth, begun, h, fun _ => rfl⟩
  | cons t front ih =>
    by_cases hends : endsType stops depth begun t
    · rw [List.cons_append, skipType_of_ends hends] at h
      have hlength := congrArg List.length h
      simp only [List.length_cons, List.length_append] at hlength
      omega
    · rw [List.cons_append, skipType_of_not_ends hends] at h
      obtain ⟨depth', begun', hrest, hmore⟩ := ih h
      exact ⟨depth', begun', hrest, fun more => by
        rw [List.cons_append, skipType_of_not_ends hends, hmore]⟩

/-- A type that ends in front of a token ends where every expression does. -/
lemma skipType_of_isEnd (h : endsType stops depth begun close) (hstub : IsEnd stub) :
    skipType stops depth begun stub = stub := by
  obtain rfl := eq_zero_of_endsType h
  rcases hstub with rfl | ⟨t, rest, d, rfl, ht, hd⟩
  · rw [skipType]
  · refine skipType_of_ends ?_
    have hdelimiter : ∀ d ∈ [',', ')', ']', '\x7d'], d ∈ [',', ';', '\x7d', ']', ')'] := by decide
    rw [endsType, ht]
    exact ⟨rfl, .inr (hdelimiter d hd)⟩

/-- Casts in front of other tokens. -/
lemma skipCasts_replaceEnd (h : skipCasts ts = us ++ close :: tail)
    (hstub : us = [] → IsEnd stub) :
    ∃ rs, ts = rs ++ close :: tail ∧ skipCasts (rs ++ stub) = us ++ stub := by
  obtain ⟨front, hfront⟩ := isSuffix_skipCasts ts
  rw [h] at hfront
  subst hfront
  refine ⟨front ++ us, (List.append_assoc ..).symm, ?_⟩
  rw [List.append_assoc]
  cases front with
  | nil =>
    -- nothing was skipped
    cases us with
    | nil => exact (hstub rfl).ends.2.1
    | cons u us =>
      refine skipCasts_of_not_startsCast fun hcast => ?_
      have hlength := (isSuffix_skipType (fun _ => false) 0 false (us ++ close :: tail)).length_le
      rw [List.nil_append, List.cons_append, skipCasts_of_startsCast hcast] at h
      rw [h, List.length_cons] at hlength
      omega
  | cons t front =>
    have hcast : startsCast t := by
      by_contra hcast
      have hlength := congrArg List.length h
      rw [List.cons_append, skipCasts_of_not_startsCast hcast] at hlength
      simp only [List.length_cons, List.length_append] at hlength
      omega
    rw [List.cons_append, skipCasts_of_startsCast hcast] at h ⊢
    obtain ⟨depth, begun, hself, hmore⟩ := exists_skipType_append h
    rw [hmore]
    cases us with
    | nil => exact skipType_of_isEnd (endsType_of_skipType_self hself) (hstub rfl)
    | cons u us => exact skipType_of_ends (endsType_of_skipType_self hself)

end Casts

/-! ## Parts in front of other tokens -/

section Replace

variable {inner inner' : Substitution → Expr} {c : Char} {close : Lexeme}
  {ts us tail stub : List Lexeme}

/-- Nothing stands in front of the end of a list that ends it. -/
lemma eq_nil_of_isSuffix {rs : List Lexeme} (h : us ++ close :: tail <:+ rs ++ close :: tail)
    (hrs : rs = []) : us = [] := by
  have hlength := h.length_le
  rw [hrs] at hlength
  simp only [List.length_append, List.length_cons, List.length_nil] at hlength
  exact List.eq_nil_of_length_eq_zero (by omega)

/-- **The tokens behind a part may be replaced**: if the part ends in front of the closing sign
`close`, with `us` between, it is read in front of `us` and `stub` as well, provided that it ends
there and that the atoms in it are the same. -/
def Replaceable (inner inner' : Substitution → Expr) (close : Lexeme) (tail stub : List Lexeme)
    (part : Part) (ts : List Lexeme) (node : Node) (vs : List Lexeme) : Prop :=
  (∀ t ∈ ts, atom? inner' t.token = atom? inner t.token) →
    ∀ us, vs = us ++ close :: tail → (us = [] → EndsPart stub part) →
      ∃ rs, ts = rs ++ close :: tail ∧ Reads inner' part (rs ++ stub) node (us ++ stub)

namespace Replaceable

variable {part part' whole : Part} {node node' result : Node} {vs : List Lexeme} {t : Lexeme}

/-- A part with one part in it, behind the tokens `front`. -/
lemma behind (front : List Lexeme) (h : Replaceable inner inner' close tail stub part ts node vs)
    (hrule : ∀ {rs us}, Reads inner' part rs node us → Reads inner' whole (front ++ rs) result us)
    (hends : EndsPart stub whole → EndsPart stub part) :
    Replaceable inner inner' close tail stub whole (front ++ ts) result vs := by
  intro hinner us hvs hstub
  obtain ⟨rs, rfl, hreads⟩ := h (fun t ht => hinner t (List.mem_append_right _ ht)) us hvs
    fun hus => hends (hstub hus)
  refine ⟨front ++ rs, (List.append_assoc ..).symm, ?_⟩
  rw [List.append_assoc]
  exact hrule hreads

/-- A part with one part in it, which the token `t` closes. -/
lemma closed (front : List Lexeme)
    (h : Replaceable inner inner' close tail stub part ts node (t :: vs))
    (hrule : ∀ {rs us}, Reads inner' part rs node (t :: us) →
      Reads inner' whole (front ++ rs) result us) :
    Replaceable inner inner' close tail stub whole (front ++ ts) result vs := by
  intro hinner us hvs _
  obtain ⟨rs, rfl, hreads⟩ := h (fun t ht => hinner t (List.mem_append_right _ ht)) (t :: us)
    (congrArg (t :: ·) hvs) nofun
  refine ⟨front ++ rs, (List.append_assoc ..).symm, ?_⟩
  rw [List.append_assoc]
  exact hrule hreads

/-- A part with two parts in it, behind the tokens `front`. -/
lemma both (front : List Lexeme)
    (hfirst : Replaceable inner inner' close tail stub part ts node us) (hus : us <:+ ts)
    (hlater : Replaceable inner inner' close tail stub part' us node' vs) (hvs : vs <:+ us)
    (hrule : ∀ {rs us vs}, Reads inner' part rs node us → Reads inner' part' us node' vs →
      Reads inner' whole (front ++ rs) result vs)
    (hends : EndsPart stub whole → EndsPart stub part ∧ EndsPart stub part') :
    Replaceable inner inner' close tail stub whole (front ++ ts) result vs := by
  intro hinner us' hvs' hstub
  have hatoms : ∀ t ∈ ts, atom? inner' t.token = atom? inner t.token :=
    fun t ht => hinner t (List.mem_append_right _ ht)
  obtain ⟨rs, rfl, hreads'⟩ := hlater (fun t ht => hatoms t (hus.mem ht)) us' hvs'
    fun hnil => (hends (hstub hnil)).2
  -- nothing in front of the end of the first part means nothing in front of that of the whole
  have hempty := eq_nil_of_isSuffix (hvs' ▸ hvs)
  obtain ⟨rs', rfl, hreads⟩ := hfirst hatoms rs rfl fun hnil => (hends (hstub (hempty hnil))).1
  refine ⟨front ++ rs', (List.append_assoc ..).symm, ?_⟩
  rw [List.append_assoc]
  exact hrule hreads hreads'

/-- A part with two parts in it, between which the token `t` stands. -/
lemma between (hfirst : Replaceable inner inner' close tail stub part ts node (t :: us))
    (hus : t :: us <:+ ts) (hlater : Replaceable inner inner' close tail stub part' us node' vs)
    (hrule : ∀ {rs us vs}, Reads inner' part rs node (t :: us) → Reads inner' part' us node' vs →
      Reads inner' whole rs result vs)
    (hends : EndsPart stub whole → EndsPart stub part') :
    Replaceable inner inner' close tail stub whole ts result vs := by
  intro hinner us' hvs hstub
  obtain ⟨rs, rfl, hreads'⟩ := hlater
    (fun u hu => hinner u (hus.mem (List.mem_cons_of_mem _ hu))) us' hvs
    fun hnil => hends (hstub hnil)
  obtain ⟨rs', rfl, hreads⟩ := hfirst hinner (t :: rs) rfl nofun
  exact ⟨rs', rfl, hrule hreads hreads'⟩

/-- A part that is one token. -/
lemma token (hrule : ∀ us, vs = us ++ close :: tail → (us = [] → EndsPart stub whole) →
      atom? inner' t.token = atom? inner t.token →
        Reads inner' whole (t :: (us ++ stub)) result (us ++ stub)) :
    Replaceable inner inner' close tail stub whole (t :: vs) result vs := by
  rintro hinner us rfl hstub
  exact ⟨t :: us, rfl, hrule us rfl hstub (hinner t (List.mem_cons_self ..))⟩

/-- An operand with the casts behind it. -/
lemma expression {e : Expr} (h : Replaceable inner inner' close tail stub .unary ts (.expr e) us)
    (hend : EndsExpression (skipCasts us)) :
    Replaceable inner inner' close tail stub .expression ts (.expr e) (skipCasts us) := by
  intro hinner us' hvs hstub
  obtain ⟨rs, rfl, hcasts⟩ := skipCasts_replaceEnd hvs hstub
  have hempty := eq_nil_of_isSuffix (hvs ▸ isSuffix_skipCasts (rs ++ close :: tail))
  obtain ⟨rs', rfl, hunary⟩ := h hinner rs rfl fun hnil => (hstub (hempty hnil)).endsPart_unary
  have hexpression := Reads.expression hunary (by
    rw [hcasts]
    rw [hvs] at hend
    exact fun d hd => atSign_replaceEnd (hend d hd) fun hnil => (hstub hnil).ends.2.2 d hd)
  rw [hcasts] at hexpression
  exact ⟨rs', rfl, hexpression⟩

/-- An exclamation mark that is passed over. -/
lemma nonNull {links : List Link}
    (h : Replaceable inner inner' close tail stub .links ts (.links links) vs) (hvs : vs <:+ ts)
    (ht : IsPunct '!' t) (hnext : atSign '=' ts = false) :
    Replaceable inner inner' close tail stub .links (t :: ts) (.links links) vs := by
  intro hinner us hend hstub
  obtain ⟨rs, rfl, hlinks⟩ := h (List.forall_mem_cons.1 hinner).2 us hend hstub
  have hempty := eq_nil_of_isSuffix (hend ▸ hvs)
  have hnext' := atSign_replaceEnd hnext fun hrs => (hstub (hempty hrs)).2
  exact ⟨t :: rs, rfl, .nonNull ht hnext' hlinks⟩

end Replaceable

/-- **A part in front of other tokens**: a part that is read up to a comma or to a closing bracket
is read in the same way if the tokens `stub` stand there instead, provided that it ends in front of
them and that the atoms in it are the same.

**Proof sketch.** Induction on the rules. A rule looks at the token behind a part only to see
whether the part ends, and `stub` ends it too. That is asked for only where nothing of what is
behind the part is left, since otherwise the token behind it stays as it is (`endsLinks_replaceEnd`,
`skipCasts_replaceEnd`). -/
theorem Reads.replaceEnd {part : Part} {node : Node} {vs : List Lexeme}
    (h : Reads inner part ts node vs)
    (hinner : ∀ t ∈ ts, atom? inner' t.token = atom? inner t.token)
    (hclose : IsPunct c close) (hc : c ∈ [',', ')', ']', '\x7d'])
    (hvs : vs = us ++ close :: tail) (hstub : us = [] → EndsPart stub part) :
    ∃ rs, ts = rs ++ close :: tail ∧ Reads inner' part (rs ++ stub) node (us ++ stub) := by
  have hequals : c ≠ '=' := by
    rintro rfl
    exact absurd hc (by decide)
  suffices hparts : Replaceable inner inner' close tail stub part ts node vs from
    hparts hinner us hvs hstub
  clear hinner hvs hstub
  induction h with
  | expression _ hend ih => exact ih.expression hend
  | signed negative ht _ ih => exact ih.behind [_] (.signed negative ht) id
  | plain hprimary hlinks ihprimary ihlinks =>
    exact ihprimary.both [] hprimary.isSuffix ihlinks hlinks.isSuffix .plain fun hend => ⟨hend, hend⟩
  | linksEnd hend =>
    rintro - us rfl hstub
    exact ⟨us, rfl, .linksEnd (endsLinks_replaceEnd hclose hequals hend fun hus => (hstub hus).1)⟩
  | named optional ht hu _ ih => exact ih.behind [_, _] (.named optional ht hu) id
  | computed ht hindex hlinks ihindex ihlinks =>
    exact ihindex.both [_] hindex.isSuffix ihlinks hlinks.isSuffix (.computed ht)
      fun hend => ⟨trivial, hend⟩
  | optionalComputed ht hu hindex hlinks ihindex ihlinks =>
    exact ihindex.both [_, _] hindex.isSuffix ihlinks hlinks.isSuffix (.optionalComputed ht hu)
      fun hend => ⟨trivial, hend⟩
  | nonNull ht hnext hlinks ih => exact ih.nonNull hlinks.isSuffix ht hnext
  | index _ ht ih => exact ih.closed [] fun hreads => .index hreads ht
  | atom ht => exact .token fun _ _ _ hatom => .atom (hatom.trans ht)
  | name ht hconstant hsupported hcall =>
    refine .token fun us hvs hstub _ => .name ht hconstant hsupported ?_
    rw [hvs] at hcall
    exact atSign_replaceEnd hcall fun hus => atSign_of_endsLinks (hstub hus).1
  | bracketed ht _ hu ih => exact ih.closed [_] fun hreads => .bracketed ht hreads hu
  | object ht _ ih => exact ih.behind [_] (.object ht) fun _ => trivial
  | array ht _ ih => exact ih.behind [_] (.array ht) fun _ => trivial
  | propertyValue ht _ ih => exact ih.behind [_] (.propertyValue ht) id
  | spreadEntry ht _ ih => exact ih.behind [_] (.spreadEntry ht) isEnd_of_entry
  | shorthand ht hnext =>
    refine .token fun us hvs hstub _ => .shorthand ht ?_
    by_cases hus : us = []
    · rw [hus]
      exact hstub hus
    · rw [hvs] at hnext
      rwa [atSign_append hus stub (close :: tail), atSign_append hus stub (close :: tail)]
  | property ht _ ih => exact ih.behind [_] (.property ht) isEnd_of_entry
  | computedProperty ht hindex hvalue ihindex ihvalue =>
    exact ihindex.both [_] hindex.isSuffix ihvalue hvalue.isSuffix (.computedProperty ht)
      fun hend => ⟨trivial, isEnd_of_entry hend⟩
  | noEntry ht => exact .token fun _ _ _ _ => .noEntry ht
  | moreEntries hentry ht _ ihentry ihentries =>
    exact ihentry.between hentry.isSuffix ihentries (fun hreads => .moreEntries hreads ht)
      fun _ => trivial
  | lastEntry _ ht ih => exact ih.closed [] fun hreads => .lastEntry hreads ht
  | spreadItem ht _ ih => exact ih.behind [_] (.spreadItem ht) id
  | valueItem _ ih => exact ih.behind [] .valueItem id
  | noItem ht => exact .token fun _ _ _ _ => .noItem ht
  | hole ht _ ih => exact ih.behind [_] (.hole ht) fun _ => trivial
  | moreItems hitem ht _ ihitem ihitems =>
    exact ihitem.between hitem.isSuffix ihitems (fun hreads => .moreItems hreads ht)
      fun _ => trivial
  | lastItem _ ht ih => exact ih.closed [] fun hreads => .lastItem hreads ht

end Replace

end Reader

end CardTable.Script
