import CardTable.Json.Printer
import CardTable.Proofs.Number.Digits
import CardTable.Proofs.Script.Lexer.Scanning

set_option autoImplicit false

/-!
# Literals as they are printed

The digits of a whole number and the string literal of a text are one token each, which stands for
the number or the text.

## Main results

* `CardTable.Script.unescape_escaped` — escaping is undone.
* `CardTable.Script.exists_scans_quote` — a string literal is the text that it quotes.
* `CardTable.Script.exists_scans_digits` — digits are the number that they write.
-/

namespace CardTable.Script

open CardTable.Text (digitsValue hexValue?)
open CardTable.Json (escapeChar hexDigit hexValue?_hexDigit)

/-! ## Escapes -/

/-- An escape that names the code point of a character stands for the character. -/
lemma unescapeFrom_named {c : Char} {cs behind : List Char}
    (h : escape cs = .ok (some c.toNat, behind)) :
    unescapeFrom none ('\\' :: cs) = (unescapeFrom none behind).map (c :: ·) := by
  rw [unescapeFrom_escape h, pushPoint_toNat]
  rfl

/-- A character as it is printed stands for itself. -/
lemma unescapeFrom_escapeChar (c : Char) (rest : List Char) :
    unescapeFrom none (escapeChar c ++ rest) = (unescapeFrom none rest).map (c :: ·) := by
  unfold escapeChar
  split
  · next h =>
    subst h
    exact unescapeFrom_named rfl
  split
  · next h =>
    subst h
    exact unescapeFrom_named rfl
  split
  · next hescape _ => exact unescapeFrom_plain hescape none rest
  split
  · next h =>
    subst h
    exact unescapeFrom_named rfl
  split
  · next h =>
    subst h
    exact unescapeFrom_named rfl
  split
  · next h =>
    subst h
    exact unescapeFrom_named rfl
  split
  · next h =>
    subst h
    exact unescapeFrom_named rfl
  split
  · next h =>
    subst h
    exact unescapeFrom_named rfl
  · next hprinted _ _ _ _ _ =>
    have hzero : hexValue? '0' = some 0 := rfl
    have hvalue : ((0 * 16 + 0) * 16 + c.toNat / 16 % 16) * 16 + c.toNat % 16 = c.toNat := by omega
    have hdigits : fixedHex 0 4 (['0', '0', hexDigit (c.toNat / 16), hexDigit c.toNat] ++ rest) =
        .ok (c.toNat, rest) := by
      simp only [List.cons_append, List.nil_append, fixedHex, hzero, hexValue?_hexDigit, hvalue]
    refine unescapeFrom_named ?_
    change (fixedHex 0 4 (['0', '0', hexDigit (c.toNat / 16), hexDigit c.toNat] ++ rest)).map _ = _
    rw [hdigits]
    rfl

/-- **Escaping is undone.** -/
theorem unescape_escaped (cs : List Char) : unescape (cs.flatMap escapeChar) = .ok cs := by
  unfold unescape
  induction cs with
  | nil => rw [List.flatMap_nil, unescapeFrom, unpaired]; rfl
  | cons c rest ih =>
    rw [List.flatMap_cons, unescapeFrom_escapeChar, ih]
    rfl

/-! ## String literals -/

/-- A character that stands for itself in a string literal. -/
lemma stringBody?_cons {quote : Char} {g : Glyph} (rest : List Glyph) (hescape : g.char ≠ '\\')
    (hquote : g.char ≠ quote) (hfeed : g.char ≠ '\n') (hreturn : g.char ≠ '\r') :
    stringBody? quote (g :: rest) =
      (stringBody? quote rest).map fun (body, behind) => (g.char :: body, behind) := by
  rw [stringBody?.eq_def]
  simp only [if_neg hescape, if_neg hquote, if_neg (not_or.2 ⟨hfeed, hreturn⟩)]

/-- A printed character in a string literal. -/
lemma stringBody?_escapeChar (c : Char) (o : Nat) (rest : List Glyph) :
    stringBody? '"' (locate o (escapeChar c) ++ rest) =
      (stringBody? '"' rest).map fun (body, behind) => (escapeChar c ++ body, behind) := by
  -- a backslash takes the next character along, and hexadecimal digits stand for themselves
  have hpair : ∀ (e : Char) (n m : Nat) (behind : List Glyph), e ≠ '\r' →
      stringBody? '"' (⟨n, '\\'⟩ :: ⟨m, e⟩ :: behind) =
        (stringBody? '"' behind).map fun (body, behind) => ('\\' :: e :: body, behind) := by
    intro e n m behind he
    rw [stringBody?_escape behind rfl, if_neg fun h => he h.1]
  have hplain : ∀ (e : Char) (n : Nat) (behind : List Glyph), e ∉ ['\\', '"', '\n', '\r'] →
      stringBody? '"' (⟨n, e⟩ :: behind) =
        (stringBody? '"' behind).map fun (body, behind) => (e :: body, behind) := by
    intro e n behind he
    simp only [List.mem_cons, List.not_mem_nil, or_false, not_or] at he
    exact stringBody?_cons behind he.1 he.2.1 he.2.2.1 he.2.2.2
  have hdigit : ∀ n, hexDigit n ∉ ['\\', '"', '\n', '\r'] := by
    have hall : ∀ d < 16, Nat.digitChar d ∉ ['\\', '"', '\n', '\r'] := by decide
    exact fun n => hall _ (Nat.mod_lt n (by decide))
  unfold escapeChar
  split
  · exact hpair _ _ _ _ (by decide)
  split
  · exact hpair _ _ _ _ (by decide)
  split
  · next hquote hescape hprinted =>
    refine hplain _ _ _ ?_
    simp only [List.mem_cons, List.not_mem_nil, or_false, not_or]
    refine ⟨hescape, hquote, ?_, ?_⟩ <;>
    · rintro rfl
      exact absurd hprinted (by decide)
  split
  · exact hpair _ _ _ _ (by decide)
  split
  · exact hpair _ _ _ _ (by decide)
  split
  · exact hpair _ _ _ _ (by decide)
  split
  · exact hpair _ _ _ _ (by decide)
  split
  · exact hpair _ _ _ _ (by decide)
  · simp only [locate, List.cons_append, List.nil_append]
    rw [hpair _ _ _ _ (by decide), hplain _ _ _ (by decide), hplain _ _ _ (by decide),
      hplain _ _ _ (hdigit _), hplain _ _ _ (hdigit _)]
    simp only [Option.map_map]
    rfl

/-- The body of a string literal up to its closing quote. -/
lemma stringBody?_escaped (cs : List Char) (o o' : Nat) (left : List Glyph) :
    stringBody? '"' (locate o (cs.flatMap escapeChar) ++ ⟨o', '"'⟩ :: left) =
      some (cs.flatMap escapeChar, left) := by
  induction cs generalizing o with
  | nil =>
    rw [List.flatMap_nil, locate, List.nil_append, stringBody?.eq_def]
    rfl
  | cons c rest ih =>
    rw [List.flatMap_cons, locate_append, List.append_assoc, stringBody?_escapeChar, ih]
    rfl

/-- **A string literal as it is printed** is the text that it quotes. -/
theorem exists_scans_quote (s : String) (o : Nat) (left : List Glyph) :
    ∃ t, Scans (locate o (Json.quote s) ++ left) [t] left ∧ t.token = .text s ∧
      t.afterBreak = false := by
  let body := s.toList.flatMap escapeChar
  have hpiece : locate o (Json.quote s) ++ left = ⟨o, '"'⟩ ::
      (locate (o + 1) body ++ ⟨o + 1 + Text.byteCount body, '"'⟩ :: left) := by
    rw [Json.quote, List.append_assoc, List.singleton_append, locate_single o rfl,
      locate_append_single _ body rfl]
    simp [locate]
  have hfound : found? (stringLiteral ⟨o, '"'⟩
      (locate (o + 1) body ++ ⟨o + 1 + Text.byteCount body, '"'⟩ :: left)) = some (s, left) := by
    rw [found?_stringLiteral, stringBody?_escaped]
    dsimp only [Option.bind_some]
    rw [unescape_escaped]
    simp [Except.toOption]
  have hword : ¬ startsWord '"' = true := by decide
  have hslash : '"' ≠ '/' := by decide
  have htoken := token_of_quote hword (by simp) (.inr rfl) hfound
  rw [hpiece]
  exact ⟨_, .cons (skipGap_of_not_isGap _ rfl hslash) htoken (.nil left), rfl, rfl⟩

/-! ## Numeric literals -/

/-- A digit begins neither a gap nor a word, and it announces no base. -/
lemma digit_alone {c : Char} (h : c.isDigit = true) :
    isGap c = false ∧ c ≠ '/' ∧ startsWord c = false ∧ radixOf? c = none ∧ c ≠ '_' := by
  have hall : ∀ d < 10, isGap (Nat.digitChar d) = false ∧ Nat.digitChar d ≠ '/' ∧
      startsWord (Nat.digitChar d) = false ∧ radixOf? (Nat.digitChar d) = none ∧
      Nat.digitChar d ≠ '_' := by
    decide
  obtain ⟨hvalue, hchar⟩ := Text.digitChar_digitValue h
  exact hchar ▸ hall _ hvalue

/-- What stands behind a token that the text keeps apart. -/
lemma isApart_of_ahead {g : Glyph} {rest : List Glyph} (h : ahead (g :: rest) = []) :
    isApart g.char = true := by
  rw [ahead_cons] at h
  by_contra hnot
  rw [if_neg hnot] at h
  cases h

section Numeral

variable {ds : List Char} {left : List Glyph}

/-- Neither a fraction nor an exponent goes on with a number that the text keeps apart. -/
lemma fraction_exponent_of_ahead (hleft : ahead left = []) :
    fractionPart left = ([], left) ∧ exponentPart left = (some 0, left) := by
  cases left with
  | nil => exact ⟨rfl, rfl⟩
  | cons g rest =>
    obtain ⟨o, c⟩ := g
    have hapart : isApart c = true := isApart_of_ahead hleft
    have hpoint : c ≠ '.' := by
      rintro rfl
      exact absurd hapart (by decide)
    have hexponent : ¬ (c = 'e' ∨ c = 'E') := by
      rintro (rfl | rfl) <;> exact absurd hapart (by decide)
    constructor
    · unfold fractionPart
      split
      · next heq => exact absurd (congrArg Glyph.char (List.cons.inj heq).1) hpoint
      · rfl
    · unfold exponentPart
      exact if_neg hexponent

/-- A decimal literal without a point. -/
lemma decimalNumeral_of_digits (hds : ∀ c ∈ ds, c.isDigit = true) (hne : ds ≠ []) (o : Nat)
    (hleft : ahead left = []) : decimalNumeral (locate o ds ++ left) =
      .ok (Double.ofDecimal? false (digitsValue ds) 0, left) := by
  have hdigits : takeDigits isDigitOrLine (locate o ds ++ left) = (ds, left) := by
    have hstop : left.head?.any (fun g => isDigitOrLine g.char) = false := by
      rw [any_head?_eq isDigitOrLine_of_isApart, hleft]
      rfl
    obtain ⟨htake, hdrop⟩ := span_locate (p := isDigitOrLine)
      (fun c hc => by simp [isDigitOrLine, hds c hc]) o hstop
    rw [takeDigits, htake, hdrop, chars_locate, List.filter_eq_self.2]
    exact fun c hc => by simpa using (digit_alone (hds c hc)).2.2.2.2
  obtain ⟨hfraction, hexponent⟩ := fraction_exponent_of_ahead hleft
  have hbig : left.head?.map Glyph.char ≠ some 'n' := by
    have hnone : ahead left = ahead [] := hleft
    rw [Ne, head?_eq_some_iff_of_ahead hnone (by decide)]
    intro hhead
    cases hhead
  have hword : ¬ (left.head?.map Glyph.char).any startsWord = true := by
    rw [Option.any_map, Bool.not_eq_true]
    exact (any_head?_eq startsWord_of_isApart left).trans (by rw [hleft]; rfl)
  simp only [decimalNumeral, hdigits, hfraction, hexponent, if_neg hbig, if_neg hword,
    List.append_nil, if_neg hne]
  rfl

/-- **The digits of a whole number** are the number that they write. -/
theorem exists_scans_digits (hds : ∀ c ∈ ds, c.isDigit = true) (hne : ds ≠ []) (o : Nat)
    (hleft : ahead left = []) : ∃ t, Scans (locate o ds ++ left) [t] left ∧
      t.token = .number (Double.ofDecimal? false (digitsValue ds) 0) ∧ t.afterBreak = false := by
  have hdecimal := decimalNumeral_of_digits hds hne o hleft
  obtain ⟨d, ds, rfl⟩ := List.exists_cons_of_ne_nil hne
  have hd := hds d (List.mem_cons_self ..)
  obtain ⟨hgap, hslash, hword, -⟩ := digit_alone hd
  have hplain : ∀ {c : Char}, c.isDigit = true → ¬ isApart c = true := by
    intro c hc hapart
    rw [isDigit_of_isApart c hapart] at hc
    cases hc
  have hradix : announcedRadix? (locate o (d :: ds) ++ left) = none := by
    rw [announcedRadix?, locate, List.cons_append, ahead_cons, if_neg (hplain hd)]
    cases ds with
    | nil =>
      rw [locate, List.nil_append, hleft]
      split
      · next heq => cases (List.cons.inj heq).2
      · rfl
    | cons e ds =>
      have he := hds e (by simp)
      rw [locate, List.cons_append, ahead_cons, if_neg (hplain he)]
      split
      · next heq =>
        obtain ⟨-, heq⟩ := List.cons.inj heq
        obtain ⟨rfl, -⟩ := List.cons.inj heq
        exact (digit_alone he).2.2.2.1
      · rfl
  have hnumeral : numeral (locate o (d :: ds) ++ left) =
      .ok (Double.ofDecimal? false (digitsValue (d :: ds)) 0, left) := by
    rw [numeral_eq, hradix]
    exact hdecimal
  have htoken := token_of_number (g := ⟨o, d⟩) (by simp [hword]) (.inl hd) hnumeral
  exact ⟨_, .cons (skipGap_of_not_isGap _ hgap hslash) htoken (.nil left), rfl, rfl⟩

end Numeral

end CardTable.Script
