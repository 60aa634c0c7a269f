import CardTable.Proofs.Script.Expressions.Indexing
import CardTable.Proofs.Script.Expressions.Literals
import CardTable.Proofs.Number.ShortestDigits

set_option autoImplicit false

/-!
# Lengths of lists and texts

An access by number selects the item at this position, and no item from the number of items on. The
length of a list is this number. The length of a text counts its UTF-16 code units and its items are
its characters, so a text has fewer items than its length says by one for each character beyond the
basic plane.

A number is turned into the name of a property and back. Up to `2 ^ 53` this gives the same number,
and from there on it may give another one, but never one below `2 ^ 53`.

## Main definitions

* `CardTable.Number.IsNatural` — the numbers that are a natural number.
* `CardTable.Script.IsIndex` — expressions that are a natural number.
* `CardTable.Script.supplementary` — how many characters take two code units.

## Main results

* `CardTable.Script.positionOf?_render` — the position that the text of a double writes.
* `CardTable.Script.evaluateIn_index_length` — accesses by number and the length.
-/

namespace CardTable

/-- The number is the natural number `i`. -/
inductive Number.IsNatural (i : Nat) : Number → Prop
  /-- As a whole number. -/
  | whole (h : Wide i) : Number.IsNatural i (.whole i h)
  /-- As a double. -/
  | double {x : Double} (hsign : x.negative = false) (hunits : x.units = i * Double.one) :
    Number.IsNatural i (.double x)

namespace Script

open Reader
open CardTable.Text (digitsValue)

/-! ## Texts of doubles -/

/-- Zeros behind digits multiply by ten each. -/
lemma digitsValue_append_zeros (digits : List Char) (n : Nat) :
    digitsValue (digits ++ List.replicate n '0') = digitsValue digits * 10 ^ n := by
  induction n with
  | zero => simp
  | succ n ih =>
    have hzero : Text.digitValue '0' = 0 := rfl
    rw [List.replicate_succ', ← List.append_assoc, Text.digitsValue_concat, ih, hzero, Nat.add_zero,
      Nat.pow_succ, Nat.mul_assoc]

/-- Digits are read as the number that they write. -/
lemma positionOf?_of_digits {digits : List Char} (hne : digits ≠ [])
    (hdigits : ∀ c ∈ digits, c.isDigit = true) :
    positionOf? (String.ofList digits) = some (digitsValue digits) := by
  rw [positionOf?_plain, String.toList_ofList, if_pos ⟨hne, List.all_eq_true.2 hdigits⟩]
  rw [String.toList_ofList]
  intro hplus
  exact absurd (hdigits '+' (List.mem_of_mem_head? hplus)) (by decide)

/-- A text with a decimal point is not read as a position. -/
lemma positionOf?_of_point {cs : List Char} (h : '.' ∈ cs) :
    positionOf? (String.ofList cs) = none := by
  refine Option.eq_none_iff_forall_ne_some.2 fun i hi => ?_
  obtain ⟨sign, zeros, hsign, hzeros, hkey⟩ := positionOf?_eq_some_iff.1 hi
  rw [String.toList_ofList] at hkey
  rw [hkey, List.mem_append, List.mem_append] at h
  rcases h with h | h | h
  · have hplain : ∀ sign ∈ [[], ['+']], '.' ∉ sign := by decide
    exact hplain sign hsign h
  · exact absurd (hzeros _ h) (by decide)
  · exact absurd (Json.isDigit_toDigits i '.' h) (by decide)

/-- **The position that the text of a double writes**: its shortest digits, if there are none behind
the point. -/
theorem positionOf?_render {x : Double} (hsign : x.negative = false) :
    positionOf? (String.ofList (x.render .plain)) =
      if (digitCount (x.shortest .away).digits : Int) ≤ (x.shortest .away).point then
        some (x.shortest .away).numerator
      else none := by
  have hform : x.render .plain = (x.shortest .away).positionalForm [] := by
    simp [Double.render, hsign, DecimalStyle.plain]
  rw [hform]
  generalize x.shortest .away = d
  have hcount : 0 < digitCount d.digits := Nat.length_toDigits_pos
  unfold Decimal.positionalForm
  dsimp only
  split
  · rw [if_neg (by omega)]
    exact positionOf?_of_point (by simp)
  split
  · next hshort =>
    have hlong : ¬ (digitCount d.digits : Int) ≤ d.point := Int.not_le.2 hshort
    rw [if_neg hlong]
    exact positionOf?_of_point (by simp)
  · next hshort =>
    have hlong : (digitCount d.digits : Int) ≤ d.point := Int.not_lt.1 hshort
    have hzeros : d.point.toNat - (Nat.toDigits 10 d.digits).length =
        (d.point - digitCount d.digits).toNat := by
      change d.point.toNat - digitCount d.digits = _
      omega
    rw [if_pos hlong, List.append_nil, positionOf?_of_digits, digitsValue_append_zeros,
      Text.digitsValue_toDigits, hzeros, Decimal.numerator]
    · simp
    · intro c hc
      rcases List.mem_append.1 hc with hc | hc
      · exact Json.isDigit_toDigits _ c hc
      · rw [List.eq_of_mem_replicate hc]
        rfl

/-- The text of a large double writes no small position. -/
lemma two_pow_le_of_position {x : Double} (hsign : x.negative = false)
    (hunits : 2 ^ 53 * Double.one ≤ x.units) {p : Nat}
    (hp : positionOf? (String.ofList (x.render .plain)) = some p) : 2 ^ 53 ≤ p := by
  have hzero : x.isZero = false := Double.isZero_of_units_pos
    (Nat.lt_of_lt_of_le (Nat.mul_pos (by decide) Double.one_pos) hunits)
  rw [positionOf?_render hsign, Option.ite_none_right_eq_some] at hp
  obtain ⟨hlong, hp⟩ := hp
  have hrounds := Double.shortest_roundsTo .away hzero
  rw [Decimal.denominator_eq_one hlong, Option.some.inj hp] at hrounds
  exact Double.two_pow_le_of_roundsTo hunits hrounds

/-! ## Numbers that are positions -/

/-- The key is read as the position `i` if it is below `2 ^ 53`, and otherwise as one that is not
below `2 ^ 53`, if it is read as a position at all. It does not name the length. -/
structure SelectsPosition (key : String) (i : Nat) : Prop where
  /-- A small position. -/
  small : i < 2 ^ 53 → positionOf? key = some i
  /-- A large position. -/
  large : 2 ^ 53 ≤ i → ∀ p, positionOf? key = some p → 2 ^ 53 ≤ p
  /-- The key is not the one of the length. -/
  ne_length : key ≠ "length"

section Positions

variable {i : Nat} {m : Number}

/-- A decimal number is written in digits with a point. -/
lemma of_mem_positionalForm {d : Decimal} {c : Char} (h : c ∈ d.positionalForm []) :
    c.isDigit = true ∨ c = '.' := by
  have hdigits := Json.isDigit_toDigits d.digits
  have hzero : ∀ n, ∀ c ∈ List.replicate n '0', c.isDigit = true := fun n c hc => by
    rw [List.eq_of_mem_replicate hc]
    rfl
  unfold Decimal.positionalForm at h
  dsimp only at h
  split at h
  · simp only [List.mem_append, List.mem_cons, List.not_mem_nil, or_false] at h
    rcases h with ((rfl | rfl) | h) | h
    · exact .inl rfl
    · exact .inr rfl
    · exact .inl (hzero _ c h)
    · exact .inl (hdigits c h)
  split at h
  · simp only [List.mem_append, List.mem_cons, List.not_mem_nil, or_false] at h
    rcases h with (h | rfl) | h
    · exact .inl (hdigits c (List.mem_of_mem_take h))
    · exact .inr rfl
    · exact .inl (hdigits c (List.mem_of_mem_drop h))
  · rw [List.append_nil, List.mem_append] at h
    exact .inl (h.elim (hdigits c) (hzero _ c))

/-- The text of a double is not the name of the length. -/
lemma ne_length_of_render {x : Double} (hsign : x.negative = false) :
    String.ofList (x.render .plain) ≠ "length" := by
  intro heq
  have hmem : 'l' ∈ x.render .plain := by
    rw [← String.toList_ofList (l := x.render .plain), heq]
    decide
  simp only [Double.render, hsign, DecimalStyle.plain, Bool.false_eq_true, if_false, if_true,
    List.nil_append] at hmem
  exact absurd (of_mem_positionalForm hmem) (by decide)

/-- Digits of a number select its position. -/
lemma selectsPosition_toDigits (i : Nat) :
    SelectsPosition (String.ofList (Nat.toDigits 10 i)) i := by
  have hread := positionOf?_of_digits Nat.toDigits_ne_nil (Json.isDigit_toDigits i)
  rw [Text.digitsValue_toDigits] at hread
  refine ⟨fun _ => hread, fun hi p hp => ?_, fun heq => ?_⟩
  · exact Option.some.inj (hread.symm.trans hp) ▸ hi
  · have hlength : positionOf? "length" = some i := heq ▸ hread
    cases hlength

/-- The text of a double from `2 ^ 53` on selects a large position. -/
lemma selectsPosition_render {x : Double} (hsign : x.negative = false) (hi : 2 ^ 53 ≤ i)
    (hunits : 2 ^ 53 * Double.one ≤ x.units) :
    SelectsPosition (String.ofList (x.render .plain)) i :=
  ⟨fun hsmall => absurd hsmall (Nat.not_lt.2 hi),
    fun _ _ hp => two_pow_le_of_position hsign hunits hp, ne_length_of_render hsign⟩

/-- The key of a number is its text. -/
lemma propertyKey_num (m : Number) :
    propertyKey (some (.num m)) = String.ofList (numberDisplay m) :=
  rfl

/-- The text of a whole number of a signed word. -/
lemma numberDisplay_of_signed {n : Int} (h : Wide n) (hsigned : Signed n) :
    numberDisplay (.whole n h) = Json.intText n := by
  simp only [numberDisplay, Number.signed?, if_pos hsigned]

/-- The text of another whole number. -/
lemma numberDisplay_of_not_signed {n : Int} (h : Wide n) (hsigned : ¬ Signed n) :
    numberDisplay (.whole n h) = ((Double.ofInt? n).getD .zero).render .plain := by
  simp only [numberDisplay, Number.signed?, if_neg hsigned, Number.toDouble]

/-- The text of a double. -/
lemma numberDisplay_double (x : Double) : numberDisplay (.double x) = x.render .plain := by
  simp only [numberDisplay, Number.signed?, Number.toDouble]

/-- A whole number selects its position. -/
lemma selectsPosition_whole (h : Wide i) :
    SelectsPosition (String.ofList (numberDisplay (.whole i h))) i := by
  by_cases hsigned : Signed i
  · have htext : Json.intText i = Nat.toDigits 10 i := by
      rw [Json.intText, if_neg (by omega), Int.natAbs_natCast]
    rw [numberDisplay_of_signed h hsigned, htext]
    exact selectsPosition_toDigits i
  · have hi : 2 ^ 53 ≤ i := by omega
    obtain ⟨x, hx⟩ := Double.exists_ofInt?_of_lt (n := i) (by omega)
    have hnearest : Double.ofRatio? false i 1 = some x := by
      rwa [Double.ofInt?, decide_eq_false (by omega), Int.natAbs_natCast] at hx
    obtain ⟨hsign, hunits⟩ := Double.le_units_of_ofRatio? hi hnearest
    rw [numberDisplay_of_not_signed h hsigned, hx, Option.getD_some]
    exact selectsPosition_render hsign hi hunits

/-- A double that is a whole number selects its position. -/
lemma selectsPosition_double {x : Double} (hsign : x.negative = false)
    (hunits : x.units = i * Double.one) :
    SelectsPosition (String.ofList (x.render .plain)) i := by
  rcases Nat.lt_or_ge i (2 ^ 53) with hi | hi
  · refine ⟨fun _ => ?_, fun hlarge => absurd hi (Nat.not_lt.2 hlarge), ne_length_of_render hsign⟩
    rw [positionOf?_render hsign]
    rcases Nat.eq_zero_or_pos i with rfl | hpos
    · have hzero : x.isZero = true := by
        rw [Nat.zero_mul] at hunits
        exact beq_iff_eq.2 (Double.place_eq_zero_of_unitsAt hunits)
      rw [Double.shortest, if_pos hzero]
      rfl
    · obtain ⟨hlong, hnumerator⟩ := Double.shortest_whole .away hpos hi hunits
      rw [if_pos hlong, hnumerator]
  · refine selectsPosition_render hsign hi ?_
    rw [hunits]
    exact Nat.mul_le_mul_right _ hi

/-- **A number that is a natural number** selects its position. -/
theorem selectsPosition_of_isNatural (h : m.IsNatural i) :
    SelectsPosition (propertyKey (some (.num m))) i := by
  rw [propertyKey_num]
  cases h with
  | whole h => exact selectsPosition_whole h
  | double hsign hunits =>
    rw [numberDisplay_double]
    exact selectsPosition_double hsign hunits

end Positions

/-! ## Expressions that are a natural number -/

/-- The text `e` is an expression that is the natural number `i`: a numeric literal that writes it
in its shortest form, or any expression with this value. -/
inductive IsIndex (bindings : List (String × Value)) (i : Nat) : String → Prop
  /-- A literal. It may be too large to be a double. -/
  | literal : IsIndex bindings i (Nat.repr i)
  /-- An expression with this value. -/
  | operand {e : String} {m : Number} (he : IsOperand bindings e (some (.num m)))
    (hm : m.IsNatural i) : IsIndex bindings i e

section Index

variable {bindings : List (String × Value)} {i : Nat} {e : String}

/-- A numeric literal is an operand. -/
lemma isOperand_repr (bindings : List (String × Value)) (i : Nat) :
    IsOperand bindings (Nat.repr i) (some (numberValue (Double.ofDecimal? false i 0))) := by
  let stop := 0 + Text.byteCount (Nat.toDigits 10 i)
  obtain ⟨close, hlast, hclose, -⟩ := exists_scans_sign (c := ')') [] rfl stop
  have hahead : ahead [⟨stop, ')'⟩] = [] := rfl
  obtain ⟨t, hscans, ht, -⟩ :=
    exists_scans_digits (Json.isDigit_toDigits i) Nat.toDigits_ne_nil 0 hahead
  rw [Text.digitsValue_toDigits] at ht
  have hall : Scans (locate 0 ((Nat.repr i).toList ++ [')'])) [t, close] [] := by
    rw [Nat.toList_repr, locate_append]
    exact hscans.append hlast
  exact isOperand_of_atom hall hclose (by rw [ht, atom?]) (by rw [Expr.eval])

/-- What a large numeric literal is. -/
lemma ofDecimal?_of_lt (hi : maxSafe < i) : Double.ofDecimal? false i 0 = none ∨
    Double.ofDecimal? false i 0 = Double.ofRatio? false i 1 := by
  unfold Double.ofDecimal?
  dsimp only
  rw [if_neg (by omega)]
  split
  · exact .inl rfl
  · rw [if_pos (Int.le_refl 0)]
    exact .inr (by rw [Int.toNat_zero, Nat.pow_eq, Nat.pow_zero, Nat.mul_one])

/-- A numeric literal selects its position. -/
lemma selectsPosition_literal (i : Nat) :
    SelectsPosition (propertyKey (some (numberValue (Double.ofDecimal? false i 0)))) i := by
  rcases Nat.lt_or_ge maxSafe i with hi | hi
  · have hlarge : 2 ^ 53 ≤ i := hi
    rcases hx : Double.ofDecimal? false i 0 with _ | x
    · -- the key of a literal beyond the doubles is the one of null
      have hnull : positionOf? "null" = none := by decide
      exact ⟨fun hsmall => absurd hsmall (Nat.not_lt.2 hlarge),
        fun _ p hp => absurd (hnull.symm.trans hp) (Option.some_ne_none p).symm, by decide⟩
    · have hnearest : Double.ofRatio? false i 1 = some x := by
        rcases ofDecimal?_of_lt hi with hnone | hsame
        · cases hx.symm.trans hnone
        · exact hsame.symm.trans hx
      obtain ⟨hsign, hunits⟩ := Double.le_units_of_ofRatio? hlarge hnearest
      rw [numberValue_of_large hunits, propertyKey_num, numberDisplay_double]
      exact selectsPosition_render hsign hlarge hunits
  · have hwide : Wide i := by
      unfold maxSafe at hi
      constructor <;> omega
    rw [numberValue_ofDecimal? hi, Number.ofInt, dif_pos hwide]
    exact selectsPosition_of_isNatural (.whole hwide)

/-- A natural number is an operand that selects its position. -/
lemma IsIndex.exists_isOperand (h : IsIndex bindings i e) :
    ∃ k, IsOperand bindings e k ∧ SelectsPosition (propertyKey k) i := by
  cases h with
  | literal => exact ⟨_, isOperand_repr bindings i, selectsPosition_literal i⟩
  | operand he hm => exact ⟨_, he, selectsPosition_of_isNatural hm⟩

end Index

/-! ## Lengths -/

/-- How many characters of a text take two UTF-16 code units; none in another value. -/
def supplementary : Value → Nat
  | .str s => s.toList.countP fun c => decide (0x10000 ≤ c.toNat)
  | _ => 0

/-- Code units are the characters, and one more for each character that takes two. -/
lemma unitCount_eq (cs : List Char) :
    Text.unitCount cs = cs.length + cs.countP fun c => decide (0x10000 ≤ c.toNat) := by
  induction cs with
  | nil => rfl
  | cons c cs ih =>
    rw [Text.unitCount, ih, List.countP_cons, List.length_cons]
    simp only [decide_eq_true_eq]
    split <;> split <;> omega

section Lengths

variable {bindings : List (String × Value)} {target : Value} {items : List Value}

/-- The length counts the items, and one more for each character that takes two code units. -/
lemma member_length (h : spreadItems (some target) = .ok items) :
    member (some target) "length" =
      .ok (some (.num (.ofInt ((items.length + supplementary target : Nat) : Int)))) := by
  rcases of_spreadItems h with htarget | ⟨s, htarget, rfl⟩
  · rw [Option.some.inj htarget]
    rfl
  · have hlength : Text.unitCount s.toList =
        (charTexts s).length + supplementary (.str s) := by
      rw [unitCount_eq, charTexts, List.length_map]
      rfl
    rw [Option.some.inj htarget, ← hlength]
    rfl

/-- The item that a key selects. -/
lemma member_of_selectsPosition {key : String} {i : Nat} (hkey : SelectsPosition key i)
    (hitems : spreadItems (some target) = .ok items) (hi : i < 2 ^ 53 ∨ items.length ≤ 2 ^ 53) :
    member (some target) key = .ok items[i]? := by
  rw [member_of_spreadItems hitems hkey.ne_length]
  refine congrArg Except.ok ?_
  rcases Nat.lt_or_ge i (2 ^ 53) with hsmall | hlarge
  · rw [hkey.small hsmall, Option.bind_some]
  · have hfew : items.length ≤ 2 ^ 53 := hi.resolve_left (Nat.not_lt.2 hlarge)
    rw [List.getElem?_eq_none (Nat.le_trans hfew hlarge)]
    cases hp : positionOf? key with
    | none => rfl
    | some p =>
      rw [Option.bind_some,
        List.getElem?_eq_none (Nat.le_trans hfew (hkey.large hlarge p hp))]

/-- The length of what a name stands for. -/
lemma evaluateIn_name_length (hx : lookup (scopeOf bindings) "x" = .ok (some target))
    (hitems : spreadItems (some target) = .ok items) :
    evaluateIn (scopeOf bindings) "return x.length" =
      .ok (some (.num (.ofInt ((items.length + supplementary target : Nat) : Int)))) := by
  have hchain : IsChain ".length" [.named false "length"] := by
    have hscans : ∃ t₁ t₂ t₃ : Lexeme,
        Scans (locate 0 (".length".toList ++ [')'])) [t₁, t₂, t₃] [] ∧
          t₁.token = .sign (.punct '.') ∧ t₂.token = .word "length" ∧ IsPunct ')' t₃ :=
      ⟨_, _, _, .first rfl (by decide) rfl (.first rfl (by decide) rfl
        (.first rfl (by decide) rfl (.nil []))), rfl, rfl, rfl⟩
    obtain ⟨t₁, t₂, t₃, hscans, h₁, h₂, h₃⟩ := hscans
    exact ⟨[t₁, t₂], t₃, hscans, h₃,
      .named false h₁ h₂ (.linksEnd (endsLinks_of_isPunct h₃ (by decide)))⟩
  have hfirst : ∀ c ∈ ".length".toList.head?, continuesWord c = false := by
    rintro _ ⟨⟩
    rfl
  obtain ⟨links, hrefines, hbody⟩ := exists_evaluateIn_access bindings hchain hfirst
  have hlinks : evalLinks (scopeOf bindings) (some (some target)) [.named false "length"] =
      .ok (some (some (.num (.ofInt ((items.length + supplementary target : Nat) : Int))))) := by
    rw [evalLinks, access, Bool.false_and, if_neg Bool.false_ne_true, member_length hitems]
    rfl
  have hsame : "return x.length" = "return x" ++ ".length" := by decide
  rw [hsame, hbody, hx, ok_bind, hrefines _ _ _ hlinks]
  rfl

/-- **Accesses by number and the length.** A natural number selects the item at its position. That
it is one below the length just if there is an item holds except for the positions between the
number of items and the length, of which a text has as many as characters that take two code units.
The numbers are exact as far as doubles are, that is for all positions of a list or text that is not
longer than `2 ^ 53`.

**Proof sketch.** The key that a whole number is turned into writes its position, so the access
gives the item there, if any. The length counts code units, hence it is the number of the items and
of the supplementary characters among them, and the two bounds differ by these. -/
theorem evaluateIn_index_length (hx : lookup (scopeOf bindings) "x" = .ok (some target))
    (hitems : spreadItems (some target) = .ok items) :
    let length := items.length + supplementary target
    evaluateIn (scopeOf bindings) "return x.length" =
        .ok (some (.num (.ofInt (length : Nat)))) ∧
      ∀ i e, IsIndex bindings i e → (i < 2 ^ 53 ∨ items.length ≤ 2 ^ 53) →
        evaluateIn (scopeOf bindings) ("return x[" ++ e ++ "]") = .ok items[i]? ∧
        (((∃ item, evaluateIn (scopeOf bindings) ("return x[" ++ e ++ "]") = .ok (some item)) ↔
            i < length) ↔ ¬ (items.length ≤ i ∧ i < length)) := by
  refine ⟨evaluateIn_name_length hx hitems, fun i e he hi => ?_⟩
  obtain ⟨k, hoperand, hkey⟩ := he.exists_isOperand
  have hvalue := evaluateIn_name_index hx hoperand (member_of_selectsPosition hkey hitems hi)
  refine ⟨hvalue, ?_⟩
  have hdefined : (∃ item, evaluateIn (scopeOf bindings) ("return x[" ++ e ++ "]") =
      .ok (some item)) ↔ i < items.length := by
    rw [hvalue]
    simp only [Except.ok.injEq, List.getElem?_eq_some_iff]
    exact ⟨fun ⟨_, hlt, _⟩ => hlt, fun hlt => ⟨_, hlt, rfl⟩⟩
  rw [hdefined]
  omega

/-- A text of two characters, one of which takes two code units, has the length three and no third
item. -/
theorem evaluateIn_index_surrogates :
    let scope := scopeOf [("x", .str "😀b")]
    lookup scope "x" = .ok (some (.str "😀b")) ∧ IsIndex [("x", .str "😀b")] 2 "2" ∧
      evaluateIn scope "return x.length" = .ok (some (.num (.ofInt 3))) ∧
      evaluateIn scope "return x[2]" = .ok none := by
  have hx : lookup (scopeOf [("x", .str "😀b")]) "x" = .ok (some (.str "😀b")) := rfl
  have hitems : spreadItems (some (.str "😀b")) = .ok [.str "😀", .str "b"] := rfl
  obtain ⟨hlength, hindex⟩ := evaluateIn_index_length hx hitems
  obtain ⟨hvalue, -⟩ := hindex 2 "2" .literal (.inl (by decide))
  exact ⟨hx, .literal, hlength, hvalue⟩

end Lengths

end Script

end CardTable
