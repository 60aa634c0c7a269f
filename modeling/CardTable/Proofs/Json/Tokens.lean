import Mathlib.Data.List.Basic
import CardTable.Json.Printer
import CardTable.Json.Reader
import CardTable.Proofs.Number.Digits
import CardTable.Text.White

set_option autoImplicit false

/-!
# The tokens of compact JSON texts

A compact text has no white space, so that its tokens follow each other. A string literal ends at
its own closing quote whatever follows. A numeral ends at what may follow a value: a comma, a
closing bracket or brace, or the end of the text. The text of a double always has a fraction or an
exponent, by which it is told apart from a whole number.

## Main definitions

* `CardTable.Json.TokenAt` — a text begins with a token.
* `CardTable.Json.FollowsValue` — a text may follow a value.

## Main results

* `CardTable.Json.stringBody?_quoted` — the string literal of a text.
* `CardTable.Json.exists_numeral_of_double` — the numeral of a double.
* `CardTable.Json.tokenAt_quote`, `CardTable.Json.tokenAt_intText` — the tokens of strings and whole
  numbers.
-/

namespace CardTable

open CardTable.Text (digitsValue)

/-! ## The shortest digits are not zero -/

namespace Double

/-- Every place above zero has a positive magnitude. -/
lemma unitsAt_pos {place : Nat} (h : 0 < place) : 0 < unitsAt place := by
  unfold unitsAt
  split
  · exact h
  · exact Nat.mul_pos (Nat.add_pos_left (by decide) _) (Nat.pow_pos (by decide))

/-- Zero does not round to a place above zero. -/
lemma roundsTo_zero {place den : Nat} (hplace : 0 < place) (hden : 0 < den) :
    roundsTo place 0 den = false := by
  have hedge : 0 < lowerEdge place * den :=
    Nat.mul_pos (Nat.add_pos_right _ (unitsAt_pos hplace)) hden
  have hlow : ¬ lowerEdge place * den ≤ 0 := Nat.not_le.2 hedge
  unfold roundsTo
  split
  · rw [decide_eq_false hlow, Bool.false_and]
  · rw [decide_eq_false (Nat.not_lt_zero _), Bool.false_and]

/-- The digits that round to a place above zero are not zero. -/
lemma withDigits?_pos {tie : Tie} {place count digits : Nat} {point : Int} (hplace : 0 < place)
    (h : withDigits? tie place point count = some digits) : 0 < digits := by
  have hscale : 0 < Nat.pow 10 (count - point).toNat := Nat.pow_pos (by decide)
  have hlow : ∀ low step, roundsTo place (low * step) (Nat.pow 10 (count - point).toNat) = true →
      0 < low := by
    intro low step hhits
    refine Nat.pos_of_ne_zero ?_
    rintro rfl
    rw [Nat.zero_mul, roundsTo_zero hplace hscale] at hhits
    cases hhits
  unfold withDigits? at h
  dsimp only at h
  split at h
  · next hboth =>
    have hpos := hlow _ _ (Bool.and_eq_true_iff.1 hboth).1
    split at h
    · exact Option.some.inj h ▸ hpos
    split at h
    · exact Option.some.inj h ▸ Nat.succ_pos _
    · cases tie
      · exact Option.some.inj h ▸ Nat.add_pos_left hpos _
      · exact Option.some.inj h ▸ Nat.succ_pos _
  split at h
  · next hhits => exact Option.some.inj h ▸ hlow _ _ hhits
  split at h
  · exact Option.some.inj h ▸ Nat.succ_pos _
  · cases h

/-- The shortest digits are not zero, unless they are the digit zero in front of the point. -/
lemma shortest_digits (tie : Tie) (x : Double) :
    0 < (x.shortest tie).digits ∨ x.shortest tie = ⟨0, 1⟩ := by
  have hfirst : ∀ {point : Int} {count more digits n : Nat}, 0 < x.place →
      firstHit tie x.place point count more = some (digits, n) → 0 < digits := by
    intro point count more digits n hplace h
    induction more generalizing count with
    | zero => cases h
    | succ more ih =>
      unfold firstHit at h
      split at h
      · next hdigits =>
        exact (Prod.mk.inj (Option.some.inj h)).1 ▸ withDigits?_pos hplace hdigits
      · exact ih h
  unfold shortest
  split
  · exact .inr rfl
  · next hzero =>
    have hplace : 0 < x.place := Nat.pos_of_ne_zero fun h => hzero (by simp [isZero, h])
    dsimp only
    split
    · next digits count hdigits =>
      split
      · exact .inl Nat.one_pos
      · exact .inl (hfirst hplace hdigits)
    · exact .inr rfl

end Double

namespace Json

/-! ## Numerals -/

/-- What may follow a value: nothing, a comma, a closing bracket or a closing brace. -/
def FollowsValue (cs : List Char) : Prop :=
  ∀ c ∈ cs.head?, c = ',' ∨ c = ']' ∨ c = '\x7d'

/-- Digits in front of a decimal point: there is one, and a zero stands alone. -/
structure IsWhole (ds : List Char) : Prop where
  /-- There is a digit. -/
  ne_nil : ds ≠ []
  /-- There are digits only. -/
  isDigit : ∀ c ∈ ds, c.isDigit = true
  /-- A zero stands alone. -/
  alone : ds.head? = some '0' → ds = ['0']

/-- The sign in front of a numeral. -/
def signText (negative : Bool) : List Char :=
  if negative then ['-'] else []

/-- The digits of a number. -/
lemma isDigit_toDigits (n : Nat) : ∀ c ∈ Nat.toDigits 10 n, c.isDigit = true := fun _ hc =>
  Nat.isDigit_of_mem_toDigits (by decide) (by decide) hc

/-- The digits of a number stand in front of a decimal point. -/
lemma isWhole_toDigits (n : Nat) : IsWhole (Nat.toDigits 10 n) where
  ne_nil := Nat.toDigits_ne_nil
  isDigit := isDigit_toDigits n
  alone hzero := by
    rcases Nat.eq_zero_or_pos n with rfl | hpos
    · rfl
    · exact absurd hzero (Text.head?_toDigits_ne hpos)

/-- Behind a first digit other than zero there may be any digits. -/
lemma IsWhole.of_head {ds : List Char} (hne : ds ≠ []) (hds : ∀ c ∈ ds, c.isDigit = true)
    (hfirst : ds.head? ≠ some '0') : IsWhole ds :=
  ⟨hne, hds, fun h => absurd h hfirst⟩

/-- What follows a value goes on with no numeral. -/
lemma FollowsValue.noPart {rest : List Char} (h : FollowsValue rest) :
    rest.head?.any Char.isDigit = false ∧ fractionPart? rest = some (none, rest) ∧
      exponentPart? rest = some (none, rest) := by
  cases rest with
  | nil => exact ⟨rfl, rfl, rfl⟩
  | cons c rest =>
    obtain rfl | rfl | rfl := h c rfl <;> exact ⟨rfl, rfl, rfl⟩

/-- **A numeral** is put together from its parts. -/
theorem numeral?_append (negative : Bool) {ds cs behind rest : List Char} (hds : IsWhole ds)
    (hcs : cs.head?.any Char.isDigit = false) {fraction : Option (List Char)}
    {exponent : Option Int}
    (hfraction : fractionPart? cs = some (fraction, behind))
    (hexponent : exponentPart? behind = some (exponent, rest)) :
    numeral? (signText negative ++ (ds ++ cs)) =
      some (⟨negative, ds, fraction, exponent⟩, rest) := by
  have hsign : minusSign (signText negative ++ (ds ++ cs)) = (negative, ds ++ cs) := by
    cases negative with
    | true => rfl
    | false =>
      obtain ⟨d, ds, rfl⟩ := List.exists_cons_of_ne_nil hds.ne_nil
      have hd : d ≠ '-' := by
        rintro rfl
        exact absurd (hds.isDigit '-' (List.mem_cons_self ..)) (by decide)
      simp only [signText, Bool.false_eq_true, if_false, List.nil_append, List.cons_append]
      unfold minusSign
      split
      · next heq => exact absurd (List.cons.inj heq).1 hd
      · rfl
  have hwhole : wholeDigits (ds ++ cs) = ds := by
    unfold wholeDigits
    split
    · next hzero =>
      refine (hds.alone ?_).symm
      rwa [← List.head?_append_of_ne_nil ds hds.ne_nil]
    · exact (Text.span_append hds.isDigit hcs).1
  simp [numeral?, hsign, hwhole, hds.ne_nil, hfraction, hexponent]

/-- A fraction is read up to what is no digit. -/
lemma fractionPart?_digits {ds cs : List Char} (hne : ds ≠ []) (hds : ∀ c ∈ ds, c.isDigit = true)
    (hcs : cs.head?.any Char.isDigit = false) :
    fractionPart? ('.' :: (ds ++ cs)) = some (some ds, cs) := by
  obtain ⟨htake, hdrop⟩ := Text.span_append hds hcs
  simp [fractionPart?, htake, hdrop, hne]

/-- A signed exponent is read up to what is no digit. -/
lemma exponentPart?_digits {ds cs : List Char} (hne : ds ≠ [])
    (hds : ∀ c ∈ ds, c.isDigit = true) (hcs : cs.head?.any Char.isDigit = false) (negative : Bool) :
    exponentPart? ('e' :: (if negative then '-' else '+') :: (ds ++ cs)) =
      some (some (if negative then -(digitsValue ds : Int) else digitsValue ds), cs) := by
  obtain ⟨htake, hdrop⟩ := Text.span_append hds hcs
  cases negative <;> simp [exponentPart?, exponentSign, minusSign, htake, hdrop, hne]

/-! ## Tokens -/

/-- The text `cs` begins with the token `token`, and `behind` is behind it. -/
def TokenAt (cs : List Char) (token : Token) (behind : List Char) : Prop :=
  cs.head?.any isBlank = false ∧ token? cs = some (token, behind)

/-- **A numeral is a token**, which stands for its number. -/
theorem token?_of_numeral? {cs behind : List Char} {numeral : Numeral}
    (h : numeral? cs = some (numeral, behind)) :
    cs.head?.any isBlank = false ∧
      token? cs = numeral.value?.map fun n => (.scalar (.num n), behind) := by
  -- no other token and no blank begins with a minus sign or a digit
  have hother : ∀ c rest, cs = c :: rest → c ≠ '-' → c.isDigit = false → False := by
    rintro c rest rfl hminus hdigit
    have hsign : minusSign (c :: rest) = (false, c :: rest) := by
      unfold minusSign
      split
      · next heq => exact absurd (List.cons.inj heq).1 hminus
      · rfl
    have hzero : c ≠ '0' := by
      rintro rfl
      cases hdigit
    simp [numeral?, hsign, wholeDigits, hzero, hdigit] at h
  constructor
  · cases cs with
    | nil => rfl
    | cons c rest =>
      by_contra hblank
      have hc : c = ' ' ∨ c = '\t' ∨ c = '\n' ∨ c = '\r' := by
        simpa [isBlank, or_assoc] using (Bool.not_eq_false _).mp hblank
      obtain rfl | rfl | rfl | rfl := hc <;> exact hother _ _ rfl (by decide) (by decide)
  · unfold token?
    split
    case h_11 => cases hvalue : numeral.value? <;> simp [h, hvalue]
    all_goals exact (hother _ _ rfl (by decide) (by decide)).elim

/-- **The text of a whole number** is a token. -/
theorem tokenAt_intText {n : Int} (hwide : Wide n) {rest : List Char} (hrest : FollowsValue rest) :
    TokenAt (intText n ++ rest) (.scalar (.num (.whole n hwide))) rest := by
  obtain ⟨hdigit, hfraction, hexponent⟩ := hrest.noPart
  have htext : intText n ++ rest =
      signText (decide (n < 0)) ++ (Nat.toDigits 10 n.natAbs ++ rest) := by
    unfold intText signText
    by_cases hneg : n < 0 <;> simp [hneg]
  have hnumeral := numeral?_append (decide (n < 0)) (isWhole_toDigits n.natAbs) hdigit hfraction
    hexponent
  obtain ⟨hblank, htoken⟩ := token?_of_numeral? hnumeral
  rw [htext]
  refine ⟨hblank, htoken.trans ?_⟩
  have hmagnitude : (if n < 0 then -((n.natAbs : Nat) : Int) else (n.natAbs : Nat)) = n := by
    split <;> omega
  have hzero : (decide (n < 0) && n == 0) = false := by
    by_cases hneg : n < 0
    · simp [hneg, Int.ne_of_lt hneg]
    · simp [hneg]
  simp only [Numeral.value?, Text.digitsValue_toDigits, decide_eq_true_eq, hmagnitude, dif_pos hwide,
    hzero]
  rfl

/-! ## The numeral of a double -/

/-- A decimal number written positionally has a fraction. -/
lemma exists_positionalForm {d : Decimal} (hd : 0 < d.digits ∨ d = ⟨0, 1⟩) :
    ∃ whole fraction, IsWhole whole ∧ fraction ≠ [] ∧ (∀ c ∈ fraction, c.isDigit = true) ∧
      d.positionalForm ['.', '0'] = whole ++ '.' :: fraction := by
  have hdigits := isDigit_toDigits d.digits
  have hne : Nat.toDigits 10 d.digits ≠ [] := Nat.toDigits_ne_nil
  have hzeros : ∀ n, ∀ c ∈ List.replicate n '0', c.isDigit = true := fun n c hc => by
    rw [List.eq_of_mem_replicate hc]
    rfl
  unfold Decimal.positionalForm
  dsimp only
  split
  · refine ⟨['0'], List.replicate (-d.point).toNat '0' ++ Nat.toDigits 10 d.digits,
      ⟨by decide, by decide, fun _ => rfl⟩, by simp [hne], fun c hc => ?_, by simp⟩
    exact (List.mem_append.1 hc).elim (hzeros _ c) (hdigits c)
  next hpoint =>
  split
  · next hshort =>
    have hpos : 0 < d.digits := by
      refine hd.resolve_right ?_
      rintro rfl
      exact absurd hshort (by decide)
    have htake : (Nat.toDigits 10 d.digits).take d.point.toNat ≠ [] := by
      simp [hne]
      omega
    refine ⟨(Nat.toDigits 10 d.digits).take d.point.toNat,
      (Nat.toDigits 10 d.digits).drop d.point.toNat, .of_head htake ?_ ?_, ?_, ?_, by simp⟩
    · exact fun c hc => hdigits c (List.mem_of_mem_take hc)
    · rw [List.head?_take, if_neg (by omega)]
      exact Text.head?_toDigits_ne hpos
    · simp only [ne_eq, List.drop_eq_nil_iff, Nat.not_le]
      omega
    · exact fun c hc => hdigits c (List.mem_of_mem_drop hc)
  · refine ⟨Nat.toDigits 10 d.digits ++
      List.replicate (d.point.toNat - (Nat.toDigits 10 d.digits).length) '0', ['0'], ?_, by decide,
      by decide, by simp⟩
    rcases hd with hpos | rfl
    · refine .of_head (by simp [hne]) (fun c hc => ?_) ?_
      · exact (List.mem_append.1 hc).elim (hdigits c) (hzeros _ c)
      · rw [List.head?_append_of_ne_nil _ hne]
        exact Text.head?_toDigits_ne hpos
    · exact ⟨by decide, by decide, fun _ => rfl⟩

/-- A decimal number written with an exponent. -/
lemma exists_exponentForm (d : Decimal) :
    ∃ first more power exponent, first.isDigit = true ∧ (∀ c ∈ more, c.isDigit = true) ∧
      d.exponentForm = first :: ((if more = [] then [] else '.' :: more) ++ 'e' :: power) ∧
      ∀ rest, FollowsValue rest →
        exponentPart? ('e' :: (power ++ rest)) = some (some exponent, rest) := by
  obtain ⟨first, more, hdigits⟩ := List.exists_cons_of_ne_nil (isWhole_toDigits d.digits).ne_nil
  have hall : ∀ c ∈ first :: more, c.isDigit = true := hdigits ▸ isDigit_toDigits d.digits
  obtain ⟨hfirst, hmore⟩ := List.forall_mem_cons.1 hall
  let sign := if decide (d.point - 1 < 0) then '-' else '+'
  refine ⟨first, more, sign :: Nat.toDigits 10 (d.point - 1).natAbs, _, hfirst, hmore, ?_,
    fun rest hrest => exponentPart?_digits (isWhole_toDigits _).ne_nil (isDigit_toDigits _)
      hrest.noPart.1 (decide (d.point - 1 < 0))⟩
  unfold Decimal.exponentForm
  dsimp only
  rw [hdigits]
  cases more <;> simp [sign]

/-- A numeral with a fraction or an exponent stands for a double. -/
lemma Numeral.value?_eq_double? {numeral : Numeral}
    (h : numeral.fraction.isSome ∨ numeral.exponent.isSome) :
    numeral.value? = numeral.double?.map .double := by
  have hmark : (numeral.fraction.isNone && numeral.exponent.isNone) = false := by
    rcases h with h | h <;> obtain ⟨part, hpart⟩ := Option.isSome_iff_exists.1 h <;> simp [hpart]
  simp only [Numeral.value?, hmark, Bool.false_and, Bool.false_eq_true, if_false, dite_eq_ite, ite_self]

/-- **The numeral of a double**: its text is one, with a fraction or an exponent, and it ends where
the text ends.

**Proof sketch.** By the two forms in which a double is printed. In positional form there is a point
with digits behind it. In the other form there is an exponent, with digits in front of it or not. In
both the parts of the numeral are read one after the other (`numeral?_append`). -/
theorem exists_numeral_of_double (x : Double) :
    ∃ numeral : Numeral, (numeral.fraction.isSome ∨ numeral.exponent.isSome) ∧
      ∀ rest, FollowsValue rest → numeral? (x.render .json ++ rest) = some (numeral, rest) := by
  let d := x.shortest .even
  have hform : ∀ {form}, (if DecimalStyle.json.positional d.point then d.positionalForm ['.', '0']
      else d.exponentForm) = form → x.render .json = signText x.negative ++ form := by
    rintro _ rfl
    rfl
  by_cases hpositional : DecimalStyle.json.positional d.point = true
  · obtain ⟨whole, fraction, hwhole, hne, hfraction, htext⟩ :=
      exists_positionalForm (x.shortest_digits .even)
    refine ⟨⟨x.negative, whole, some fraction, none⟩, .inl rfl, fun rest hrest => ?_⟩
    obtain ⟨hdigit, -, hexponent⟩ := hrest.noPart
    have hparts := fractionPart?_digits hne hfraction hdigit
    rw [hform (if_pos hpositional), htext]
    simpa using numeral?_append x.negative hwhole rfl hparts hexponent
  · obtain ⟨first, more, power, exponent, hfirst, hmore, htext, hexponent⟩ := exists_exponentForm d
    have hwhole : IsWhole [first] := by
      refine ⟨List.cons_ne_nil _ _, List.forall_mem_singleton.2 hfirst, fun hzero => ?_⟩
      exact congrArg (fun c => [c]) (Option.some.inj hzero)
    rw [hform (if_neg hpositional), htext]
    rcases eq_or_ne more [] with rfl | hne
    · refine ⟨⟨x.negative, [first], none, some exponent⟩, .inr rfl, fun rest hrest => ?_⟩
      simpa using numeral?_append x.negative hwhole rfl rfl (hexponent rest hrest)
    · refine ⟨⟨x.negative, [first], some more, some exponent⟩, .inl rfl, fun rest hrest => ?_⟩
      have hparts : fractionPart? ('.' :: (more ++ 'e' :: (power ++ rest))) =
          some (some more, 'e' :: (power ++ rest)) := fractionPart?_digits hne hmore rfl
      rw [if_neg hne]
      simpa using numeral?_append x.negative hwhole rfl hparts (hexponent rest hrest)

/-! ## String literals -/

/-- A control character is printed by its code unit. -/
lemma escape?_control {c : Char} (h : c.toNat < 0x20) (rest : List Char) :
    escape? ('u' :: '0' :: '0' :: hexDigit (c.toNat / 16) :: hexDigit c.toNat :: rest) =
      some (c, rest) := by
  have hzero : Text.hexValue? '0' = some 0 := rfl
  have hvalue : ((0 * 16 + 0) * 16 + c.toNat / 16 % 16) * 16 + c.toNat % 16 = c.toNat := by omega
  have hunit : fourHex? ('0' :: '0' :: hexDigit (c.toNat / 16) :: hexDigit c.toNat :: rest) =
      some (c.toNat, rest) := by
    simp only [fourHex?, hzero, hexValue?_hexDigit, Option.bind_eq_bind, Option.bind_some, hvalue]
  change unitEscape? _ = _
  have hhigh : ¬ (0xD800 ≤ c.toNat ∧ c.toNat < 0xDC00) := by omega
  have hlow : ¬ (0xDC00 ≤ c.toNat ∧ c.toNat < 0xE000) := by omega
  simp only [unitEscape?, hunit, Option.bind_eq_bind, Option.bind_some, if_neg hhigh, if_neg hlow,
    Char.ofNat_toNat]

/-- A printed character in a string literal. -/
lemma stringBody?_printed (c : Char) (rest : List Char) :
    stringBody? (escapeChar c ++ rest) =
      (stringBody? rest).map fun (body, behind) => (c :: body, behind) := by
  have hescape : ∀ cs, escape? cs = some (c, rest) → stringBody? ('\\' :: cs) =
      (stringBody? rest).map fun (body, behind) => (c :: body, behind) := by
    intro cs h
    rw [stringBody?, if_neg (by decide), if_pos rfl]
    split
    · next hnone => cases h.symm.trans hnone
    · next hsome =>
      obtain ⟨rfl, rfl⟩ := Prod.mk.inj (Option.some.inj (h.symm.trans hsome))
      rfl
  unfold escapeChar
  split
  · next h =>
    subst h
    exact hescape _ rfl
  split
  · next h =>
    subst h
    exact hescape _ rfl
  split
  · next hquote hbackslash hprinted =>
    rw [List.singleton_append, stringBody?, if_neg hquote, if_neg hbackslash,
      if_neg (Nat.not_lt.2 hprinted)]
  split
  · next h =>
    subst h
    exact hescape _ rfl
  split
  · next h =>
    subst h
    exact hescape _ rfl
  split
  · next h =>
    subst h
    exact hescape _ rfl
  split
  · next h =>
    subst h
    exact hescape _ rfl
  split
  · next h =>
    subst h
    exact hescape _ rfl
  · next hprinted _ _ _ _ _ => exact hescape _ (escape?_control (Nat.not_le.1 hprinted) rest)

/-- **The string literal of a text** ends at its closing quote. -/
theorem stringBody?_quoted (cs rest : List Char) :
    stringBody? (cs.flatMap escapeChar ++ '"' :: rest) = some (cs, rest) := by
  induction cs with
  | nil => simp [stringBody?]
  | cons c cs ih =>
    rw [List.flatMap_cons, List.append_assoc, stringBody?_printed, ih]
    rfl

/-- The string literal of a text is a token. -/
theorem tokenAt_quote (s : String) (rest : List Char) :
    TokenAt (quote s ++ rest) (.text s) rest := by
  have htext : quote s ++ rest = '"' :: (s.toList.flatMap escapeChar ++ '"' :: rest) := by
    simp [quote]
  rw [htext]
  refine ⟨rfl, ?_⟩
  show (stringBody? (s.toList.flatMap escapeChar ++ '"' :: rest)).map _ = _
  rw [stringBody?_quoted]
  simp

end Json

end CardTable
