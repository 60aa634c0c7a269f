import Mathlib.Tactic.Lemma

set_option autoImplicit false

/-!
# The order of UTF-8 bytes

Names are compared by the code points of their characters. Comparing them by the bytes of their
UTF-8 form is the same: the form of a character gives its code point in digits to the base 64, the
highest one first, and a longer form starts with a larger byte, so that the forms of two characters
differ before either of them ends, and there as the characters do.

## Main definitions

* `CardTable.utf8Bytes` — the bytes of the UTF-8 form of a text.

## Main results

* `CardTable.utf8EncodeChar_append_lt` — the forms of two characters compare as the characters.
* `CardTable.utf8Bytes_lt_iff` — the forms of two texts compare as the texts.
-/

namespace CardTable

/-! ## Characters -/

/-- Small numbers compare as the bytes that they are. -/
lemma ofNat_lt_ofNat_iff {a b : Nat} (ha : a < 256) (hb : b < 256) :
    UInt8.ofNat a < UInt8.ofNat b ↔ a < b := by
  rw [UInt8.lt_iff_toNat_lt, UInt8.toNat_ofNat', UInt8.toNat_ofNat', Nat.mod_eq_of_lt ha,
    Nat.mod_eq_of_lt hb]

/-- Numbers below 256 are the same bytes only if they are the same. -/
lemma ofNat_eq_ofNat_iff {a b : Nat} (ha : a < 256) (hb : b < 256) :
    UInt8.ofNat a = UInt8.ofNat b ↔ a = b := by
  rw [← UInt8.toNat_inj, UInt8.toNat_ofNat', UInt8.toNat_ofNat', Nat.mod_eq_of_lt ha,
    Nat.mod_eq_of_lt hb]

/-- There are `0x110000` code points. -/
lemma codePoint_lt (c : Char) : c.val.toNat < 0x110000 := by
  rcases c.valid with h | ⟨-, h⟩
  · exact Nat.lt_trans h (by decide)
  · exact h

/-- **The UTF-8 forms of two characters compare as the characters do**, whatever follows them.

**Proof sketch.** Written with quotients by 64, the bytes of a character are its digits to this base
with a mark that grows with the number of digits. So forms of different lengths differ in the first
byte, and those of one length in the first digit in which the characters differ. -/
theorem utf8EncodeChar_append_lt {c d : Char} (h : c < d) (as bs : List UInt8) :
    String.utf8EncodeChar c ++ as < String.utf8EncodeChar d ++ bs := by
  have hlt : c.val.toNat < d.val.toNat := UInt32.lt_iff_toNat_lt.1 (Char.lt_def.1 h)
  have hd : d.val.toNat < 0x110000 := codePoint_lt d
  simp only [String.utf8EncodeChar]
  generalize c.val.toNat = m at hlt
  generalize d.val.toNat = n at hlt hd
  -- every digit is the remainder of a quotient by 64
  have hsquare : ∀ k, k / 4096 = k / 64 / 64 := fun k => (Nat.div_div_eq_div_mul k 64 64).symm
  have hcube : ∀ k, k / 262144 = k / 64 / 64 / 64 := fun k => by
    rw [← hsquare, Nat.div_div_eq_div_mul]
  simp only [hsquare, hcube]
  -- forms of different lengths differ in the first byte, those of one length in some digit
  repeat' split
  all_goals try omega
  all_goals
    simp (disch := omega) only [List.cons_append, List.nil_append, List.cons_lt_cons_iff,
      ofNat_lt_ofNat_iff, ofNat_eq_ofNat_iff]
    omega

/-! ## Texts -/

/-- The bytes of the UTF-8 form of a text. -/
def utf8Bytes (s : String) : List UInt8 :=
  s.toUTF8.data.toList

/-- The form of a text is made of the forms of its characters. -/
lemma utf8Bytes_eq_flatMap (s : String) :
    utf8Bytes s = s.toList.flatMap String.utf8EncodeChar := by
  have hs : s.toUTF8 = s.toList.utf8Encode := by
    rw [String.toUTF8, ← String.toByteArray_ofList, String.ofList_toList]
  rw [utf8Bytes, hs, List.utf8Encode, List.data_toByteArray, List.toList_toArray]

/-- If one list of characters comes before another then so does its form. -/
lemma flatMap_utf8EncodeChar_lt {cs ds : List Char} (h : cs < ds) :
    cs.flatMap String.utf8EncodeChar < ds.flatMap String.utf8EncodeChar := by
  induction cs generalizing ds with
  | nil =>
    cases ds with
    | nil => exact absurd h (List.not_lt_nil _)
    | cons d ds =>
      obtain ⟨b, bs, hform⟩ := List.exists_cons_of_ne_nil (String.utf8EncodeChar_ne_nil (c := d))
      rw [List.flatMap_cons, hform]
      exact List.nil_lt_cons _ _
  | cons c cs ih =>
    cases ds with
    | nil => exact absurd h (List.not_lt_nil _)
    | cons d ds =>
      rw [List.flatMap_cons, List.flatMap_cons]
      rcases List.cons_lt_cons_iff.1 h with hlt | ⟨rfl, hrest⟩
      · exact utf8EncodeChar_append_lt hlt _ _
      · exact List.append_left_lt (ih hrest)

/-- **Texts compare as the bytes of their UTF-8 forms.** -/
theorem utf8Bytes_lt_iff {a b : String} : utf8Bytes a < utf8Bytes b ↔ a < b := by
  have hmono : ∀ {a b : String}, a < b → utf8Bytes a < utf8Bytes b := by
    intro a b h
    rw [utf8Bytes_eq_flatMap, utf8Bytes_eq_flatMap]
    exact flatMap_utf8EncodeChar_lt (String.lt_iff.1 h)
  refine ⟨fun h => Decidable.byContradiction fun hnot => ?_, hmono⟩
  by_cases hba : b < a
  · exact List.lt_asymm h (hmono hba)
  · obtain rfl : a = b := String.le_antisymm (String.not_lt.1 hba) (String.not_lt.1 hnot)
    exact List.lt_irrefl _ h

end CardTable
