import CardTable.Script.Lexer
import Mathlib.Data.List.Forall2
import Mathlib.Data.List.TakeWhile

set_option autoImplicit false

/-!
# What the lexer cuts off

A token depends on the characters that spell it and, where it ends, on no more than two characters
behind it. Where the text stands counts for its offsets alone. So a token is cut off in the same
way from another text that begins with the same characters, at whatever offset that text stands,
as long as what is behind the token looks the same to the lexer.

## Main definitions

* `CardTable.Script.Twin` — texts with the same characters, one so many bytes further on.
* `CardTable.Script.ahead` — what the lexer can tell of the text behind a token.
* `CardTable.Script.CutsOff` — a find at the front of a text does not depend on what is behind it.

## Main results

* `CardTable.Script.cutsOff_skipGap` — a gap is cut off locally.
* `CardTable.Script.cutsOff_stringLiteral` — a string literal is cut off locally.
-/

namespace CardTable.Script

open CardTable.Text (isAlphanumeric isAlphabetic)

/-! ## Texts that stand elsewhere -/

/-- The same character in two texts, where `i` and `j` are the offsets of the texts. -/
structure Glyph.Twin (i j : Nat) (g g' : Glyph) : Prop where
  char : g'.char = g.char
  offset : g.offset + i = g'.offset + j

/-- The same characters in two texts. -/
abbrev Twin (i j : Nat) : List Glyph → List Glyph → Prop :=
  List.Forall₂ (Glyph.Twin i j)

/-- The same stretch of a template in two texts. -/
structure Substitution.Twin (i j : Nat) (s s' : Substitution) : Prop where
  source : Script.Twin i j s.source s'.source
  stop : s.stop + i = s'.stop + j

/-- The same token in two texts. -/
inductive Token.Twin (i j : Nat) : Token → Token → Prop
  | same (t : Token) (ht : ∀ head parts, t ≠ .template head parts) : Token.Twin i j t t
  | template (head : String) {parts parts' : List (Substitution × String)}
      (hparts : List.Forall₂ (fun p p' => p.1.Twin i j p'.1 ∧ p.2 = p'.2) parts parts') :
      Token.Twin i j (.template head parts) (.template head parts')

/-- The two parts of a list in a list that is related to it item by item. -/
lemma exists_append_of_forall₂ {α β : Type} {R : α → β → Prop} {front behind : List α}
    {both : List β} (h : List.Forall₂ R (front ++ behind) both) :
    ∃ front' behind', both = front' ++ behind' ∧ List.Forall₂ R front front' ∧
      List.Forall₂ R behind behind' := by
  induction front generalizing both with
  | nil => exact ⟨[], both, rfl, .nil, h⟩
  | cons a front ih =>
    rcases h with - | ⟨ha, h⟩
    obtain ⟨front', behind', rfl, hfront, hbehind⟩ := ih h
    exact ⟨_ :: front', behind', rfl, .cons ha hfront, hbehind⟩

/-- The characters of a text stand in another text as well. -/
lemma exists_of_mem_twin {i j : Nat} {cs cs' : List Glyph} (h : Twin i j cs cs') {g' : Glyph}
    (hg' : g' ∈ cs') : ∃ g ∈ cs, g.Twin i j g' := by
  induction h with
  | nil => cases hg'
  | @cons g _ _ _ hg _ ih =>
    rcases List.mem_cons.1 hg' with rfl | hg'
    · exact ⟨g, List.mem_cons_self .., hg⟩
    · obtain ⟨g, hmem, hg⟩ := ih hg'
      exact ⟨g, List.mem_cons_of_mem _ hmem, hg⟩

/-- The same characters in two texts are the same. -/
lemma chars_of_twin {i j : Nat} {cs cs' : List Glyph} (h : Twin i j cs cs') :
    chars cs' = chars cs := by
  induction h with
  | nil => rfl
  | cons hg _ ih =>
    simp only [chars, List.map_cons] at ih ⊢
    rw [hg.char, ih]

/-! ## Looking ahead -/

/-- Whether the lexer looks at `c` behind a token only to see that the token has ended. -/
def isApart (c : Char) : Bool :=
  c ∈ [')', ']', '\x7d', ',', ':', ' ']

/-- What the lexer can tell of the text behind a token: two characters, as far as it looks at them
for what they are. -/
def ahead (cs : List Glyph) : List Char :=
  ((chars cs).take 2).takeWhile fun c => !isApart c

section Ahead

variable {i j : Nat} {cs cs' front front' : List Glyph} {c : Char}

/-- Nothing is ahead at the end of the text. -/
lemma ahead_nil : ahead [] = [] := rfl

/-- What is ahead reaches up to the next character that stands apart, two at most. -/
lemma ahead_cons (g : Glyph) (cs : List Glyph) :
    ahead (g :: cs) = if isApart g.char then [] else g.char :: (ahead cs).take 1 := by
  cases hg : isApart g.char with
  | true => simp [ahead, chars, hg]
  | false =>
    cases cs with
    | nil => simp [ahead, chars, hg]
    | cons g' rest => cases hg' : isApart g'.char <;> simp [ahead, chars, hg, hg']

/-- Behind the same characters the text looks the same. -/
lemma ahead_append (hfront : Twin i j front front') (h : ahead cs = ahead cs') :
    ahead (front ++ cs) = ahead (front' ++ cs') := by
  induction hfront with
  | nil => exact h
  | cons hg _ ih => simp only [List.cons_append, ahead_cons, hg.char, ih]

/-- The first character is the same if the lexer looks at it for what it is. -/
lemma head?_ahead (cs : List Glyph) :
    (ahead cs).head? = (cs.head?.map Glyph.char).filter fun c => !isApart c := by
  cases cs with
  | nil => rfl
  | cons g rest =>
    rw [ahead_cons]
    cases hg : isApart g.char <;> simp [hg, Option.filter]

/-- What a text begins with, as far as `p` tells characters apart. -/
lemma any_head?_eq {p : Char → Bool} (hp : ∀ c, isApart c = true → p c = false)
    (cs : List Glyph) : cs.head?.any (fun g => p g.char) = (ahead cs).head?.any p := by
  rw [head?_ahead]
  cases cs with
  | nil => rfl
  | cons g rest => cases hg : isApart g.char <;> simp [hg, hp, Option.filter]

/-- Texts that look the same begin with the same characters, as far as `p` tells them apart. -/
lemma any_head?_of_ahead (h : ahead cs = ahead cs') {p : Char → Bool}
    (hp : ∀ c, isApart c = true → p c = false) :
    cs.head?.any (fun g => p g.char) = cs'.head?.any fun g => p g.char := by
  rw [any_head?_eq hp, any_head?_eq hp, h]

/-- A text by its first character. -/
lemma head?_eq_some_iff :
    cs.head?.map Glyph.char = some c ↔ ∃ o rest, cs = ⟨o, c⟩ :: rest := by
  cases cs with
  | nil => simp
  | cons g rest =>
    obtain ⟨o, d⟩ := g
    simp

/-- Texts that look the same begin with the same character that the lexer looks at. -/
lemma head?_eq_some_iff_of_ahead (h : ahead cs = ahead cs') (hc : isApart c = false) :
    cs.head?.map Glyph.char = some c ↔ cs'.head?.map Glyph.char = some c := by
  have hany : ∀ ds : List Glyph,
      ds.head?.map Glyph.char = some c ↔ ds.head?.any (fun g => g.char == c) = true := by
    intro ds
    cases ds <;> simp
  have hapart : ∀ d, isApart d = true → (d == c) = false := by
    intro d hd
    rw [beq_eq_false_iff_ne]
    rintro rfl
    exact absurd hd (by simp [hc])
  rw [hany, hany, any_head?_of_ahead h hapart]

end Ahead

/-! ## What is cut off -/

/-- Of the text `cs` a front is cut off, so that `behind` is left, and `P cs behind` holds: it holds
as well of every text that begins with the same characters, where what is behind them looks the
same. -/
def CutsOff (i j : Nat) (cs behind : List Glyph) (P : List Glyph → List Glyph → Prop) : Prop :=
  ∃ front, cs = front ++ behind ∧ ∀ front' behind', Twin i j front front' →
    ahead behind = ahead behind' → P (front' ++ behind') behind'

namespace CutsOff

variable {i j : Nat} {cs mid behind : List Glyph} {g : Glyph}
  {P Q R : List Glyph → List Glyph → Prop}

/-- Nothing is cut off. -/
lemma refl (cs : List Glyph) :
    CutsOff i j cs cs fun cs' behind' => cs' = behind' ∧ ahead cs = ahead cs' :=
  ⟨[], rfl, fun _ _ hfront hahead => by cases hfront; exact ⟨rfl, hahead⟩⟩

/-- What is cut off is what it is, and what follows from that. -/
lemma mono (h : CutsOff i j cs behind P)
    (hP : ∀ cs' behind', ahead cs = ahead cs' → ahead behind = ahead behind' →
      P cs' behind' → Q cs' behind') : CutsOff i j cs behind Q := by
  obtain ⟨front, rfl, hcut⟩ := h
  exact ⟨front, rfl, fun front' behind' hfront hahead =>
    hP _ _ (ahead_append hfront hahead) hahead (hcut front' behind' hfront hahead)⟩

/-- One front behind the other is cut off. -/
lemma trans (h : CutsOff i j cs mid P) (h' : CutsOff i j mid behind Q) :
    CutsOff i j cs behind fun cs' behind' => ∃ mid', P cs' mid' ∧ Q mid' behind' := by
  obtain ⟨front, rfl, hcut⟩ := h
  obtain ⟨middle, rfl, hcut'⟩ := h'
  refine ⟨front ++ middle, (List.append_assoc ..).symm, fun both' behind' hboth hahead => ?_⟩
  obtain ⟨front', middle', rfl, hfront, hmiddle⟩ := exists_append_of_forall₂ hboth
  rw [List.append_assoc]
  exact ⟨middle' ++ behind', hcut _ _ hfront (ahead_append hmiddle hahead),
    hcut' _ _ hmiddle hahead⟩

/-- A character more is cut off. -/
lemma cons (h : CutsOff i j cs behind P) (g : Glyph) :
    CutsOff i j (g :: cs) behind fun cs' behind' =>
      ∃ g' rest', cs' = g' :: rest' ∧ g.Twin i j g' ∧ ahead cs = ahead rest' ∧ P rest' behind' := by
  obtain ⟨front, rfl, hcut⟩ := h
  refine ⟨g :: front, rfl, ?_⟩
  rintro _ behind' (_ | ⟨hg, hfront⟩) hahead
  exact ⟨_, _, rfl, hg, ahead_append hfront hahead, hcut _ _ hfront hahead⟩

/-- The first character is cut off with more than nothing. -/
lemma of_cons (h : CutsOff i j (g :: cs) behind P) (hshort : behind.length < (g :: cs).length) :
    CutsOff i j cs behind fun cs' behind' => ∀ g', g.Twin i j g' → P (g' :: cs') behind' := by
  obtain ⟨front, hfront, hcut⟩ := h
  cases front with
  | nil =>
    rw [List.nil_append] at hfront
    rw [hfront] at hshort
    exact absurd hshort (Nat.lt_irrefl _)
  | cons f front =>
    obtain ⟨rfl, rfl⟩ := List.cons.inj hfront
    exact ⟨front, rfl, fun front' behind' htwin hahead g' hg =>
      hcut (g' :: front') behind' (.cons hg htwin) hahead⟩

/-- What is cut off is in front of what is left. -/
lemma exists_front (h : CutsOff i j cs behind P) : ∃ front, cs = front ++ behind := by
  obtain ⟨front, hfront, _⟩ := h
  exact ⟨front, hfront⟩

/-- What is left is no longer than the text. -/
lemma length_le (h : CutsOff i j cs behind P) : behind.length ≤ cs.length := by
  obtain ⟨front, rfl⟩ := h.exists_front
  simp

/-- So many characters are cut off. -/
lemma drop {n : Nat} (hn : n ≤ cs.length) :
    CutsOff i j cs (cs.drop n) fun cs' behind' => cs'.drop n = behind' := by
  refine ⟨cs.take n, (List.take_append_drop n cs).symm, fun front' behind' hfront _ => ?_⟩
  have hlength : front'.length = n := by
    rw [← hfront.length_eq, List.length_take, Nat.min_eq_left hn]
  subst hlength
  exact List.drop_left

/-- The characters at the front that satisfy `p` are cut off, if what is behind them shows that they
end there. -/
lemma dropWhile {p : Char → Bool} (cs : List Glyph)
    (hp : ∀ behind' : List Glyph, ahead (cs.dropWhile fun g => p g.char) = ahead behind' →
      behind'.head?.any (fun g => p g.char) = false) :
    CutsOff i j cs (cs.dropWhile fun g => p g.char) fun cs' behind' =>
      (cs'.dropWhile fun g => p g.char) = behind' ∧
        chars (cs'.takeWhile fun g => p g.char) = chars (cs.takeWhile fun g => p g.char) := by
  refine ⟨cs.takeWhile fun g => p g.char, List.takeWhile_append_dropWhile.symm, ?_⟩
  intro front' behind' hfront hahead
  have hall : ∀ g' ∈ front', p g'.char = true := by
    intro g' hg'
    obtain ⟨g, hg, htwin⟩ := exists_of_mem_twin hfront hg'
    rw [htwin.char]
    exact List.mem_takeWhile_imp (p := fun g : Glyph => p g.char) hg
  have hend := hp behind' hahead
  have htake : behind'.takeWhile (fun g => p g.char) = [] := by
    cases behind' <;> simp_all
  have hdrop : behind'.dropWhile (fun g => p g.char) = behind' := by
    cases behind' <;> simp_all
  rw [List.dropWhile_append_of_pos hall, List.takeWhile_append_of_pos hall, htake, hdrop,
    List.append_nil, chars_of_twin hfront]
  exact ⟨rfl, rfl⟩

/-- The same of characters among which there is none that only ends a token. -/
lemma dropWhile_of_apart {p : Char → Bool} (hp : ∀ c, isApart c = true → p c = false)
    (cs : List Glyph) : CutsOff i j cs (cs.dropWhile fun g => p g.char) fun cs' behind' =>
      (cs'.dropWhile fun g => p g.char) = behind' ∧
        chars (cs'.takeWhile fun g => p g.char) = chars (cs.takeWhile fun g => p g.char) := by
  refine dropWhile cs fun behind' hahead => ?_
  rw [← any_head?_of_ahead hahead hp]
  cases hdrop : cs.dropWhile fun g => p g.char with
  | nil => rfl
  | cons g rest =>
    have hnot := List.head_dropWhile_not (fun g : Glyph => p g.char) (l := cs) (by simp [hdrop])
    simpa [hdrop] using hnot

end CutsOff

/-! ## Gaps -/

section Gaps

variable {i j : Nat}

/-- A block comment, by its next two characters. -/
lemma blockComment?_cons (g : Glyph) (rest : List Glyph) :
    blockComment? (g :: rest) =
      if g.char = '*' ∧ rest.head?.map Glyph.char = some '/' then some (false, rest.tail)
      else (blockComment? rest).map fun (broken, behind) =>
        (isBreak g.char || broken, behind) := by
  obtain ⟨o, c⟩ := g
  by_cases hclose : c = '*' ∧ rest.head?.map Glyph.char = some '/'
  · rw [if_pos hclose]
    obtain ⟨rfl, hslash⟩ := hclose
    cases rest with
    | nil => cases hslash
    | cons g' rest =>
      obtain ⟨o', c'⟩ := g'
      obtain rfl : c' = '/' := by simpa using hslash
      rfl
  · rw [if_neg hclose, blockComment?.eq_3]
    rintro _ _ _ ⟨⟩ rfl
    exact hclose ⟨rfl, rfl⟩

/-- A block comment is cut off. -/
lemma cutsOff_blockComment? {cs behind : List Glyph} {broken : Bool}
    (h : blockComment? cs = some (broken, behind)) :
    CutsOff i j cs behind fun cs' behind' => blockComment? cs' = some (broken, behind') := by
  induction cs generalizing broken with
  | nil => cases h
  | cons g rest ih =>
    rw [blockComment?_cons] at h
    split at h
    · next hclose =>
      obtain ⟨⟨⟩, ⟨⟩⟩ := h
      obtain ⟨hstar, hslash⟩ := hclose
      cases rest with
      | nil => cases hslash
      | cons g' behind =>
      refine (((CutsOff.refl behind).cons g').cons g).mono ?_
      rintro _ behind' - - ⟨h, _, rfl, hg, -, h', _, rfl, hg', -, rfl, -⟩
      have hhead : h'.char = '/' := hg'.char.trans (by simpa using hslash)
      rw [blockComment?_cons, if_pos ⟨hg.char.trans hstar, by simp [hhead]⟩]
      rfl
    · next hopen =>
      simp only [Option.map_eq_some_iff, Prod.mk.injEq, Prod.exists] at h
      obtain ⟨inside, _, hrest, rfl, rfl⟩ := h
      refine ((ih hrest).cons g).mono ?_
      rintro _ behind' - - ⟨g', rest', rfl, hg, hsame, h⟩
      have hslash := head?_eq_some_iff_of_ahead hsame (c := '/') (by decide)
      simp only [blockComment?_cons, hg.char, ← hslash, if_neg hopen, h]
      rfl

/-- A slash in front of a text that begins no comment. -/
lemma skipGap_of_slash {g : Glyph} {rest : List Glyph} (hg : g.char = '/')
    (hslash : rest.head?.map Glyph.char ≠ some '/') (hstar : rest.head?.map Glyph.char ≠ some '*') :
    skipGap (g :: rest) = .ok (false, g :: rest) := by
  rw [skipGap.eq_def]
  simp only [hg, show isGap '/' = false by decide, Bool.false_eq_true, if_false, if_true]
  split
  · exact absurd rfl hslash
  · exact absurd rfl hstar
  · rfl

/-- A line comment is skipped. -/
lemma skipGap_of_line {g g' : Glyph} (rest : List Glyph) (hg : g.char = '/')
    (hg' : g'.char = '/') :
    skipGap (g :: g' :: rest) = skipGap (rest.dropWhile fun g => !isBreak g.char) := by
  obtain ⟨o, _⟩ := g
  obtain ⟨o', _⟩ := g'
  obtain rfl := hg
  obtain rfl := hg'
  rw [skipGap.eq_def]
  rfl

/-- A block comment is skipped. -/
lemma skipGap_of_block {g g' : Glyph} {rest behind : List Glyph} {broken : Bool}
    (hg : g.char = '/') (hg' : g'.char = '*') (h : blockComment? rest = some (broken, behind)) :
    skipGap (g :: g' :: rest) =
      (skipGap behind).map fun (later, behind) => (broken || later, behind) := by
  obtain ⟨o, _⟩ := g
  obtain ⟨o', _⟩ := g'
  obtain rfl := hg
  obtain rfl := hg'
  rw [skipGap.eq_def]
  simp only [show isGap '/' = false by decide, Bool.false_eq_true, if_false, if_true]
  split
  · next hnone => cases h.symm.trans hnone
  · next hsome =>
    obtain ⟨⟩ := Option.some.inj (h.symm.trans hsome)
    rfl

/-- A text whose gap ends in front of a character is not empty. -/
lemma exists_of_map_skipGap {f : Bool → Bool} {cs rest : List Glyph} {g : Glyph} {broken : Bool}
    (h : (skipGap cs).map (fun (later, behind) => (f later, behind)) = .ok (broken, g :: rest)) :
    ∃ later, skipGap cs = .ok (later, g :: rest) ∧ broken = f later := by
  rcases hcs : skipGap cs with e | ⟨later, behind⟩
  · simp [hcs, Except.map] at h
  · rw [hcs] at h
    obtain ⟨⟨⟩⟩ := h
    exact ⟨later, rfl, rfl⟩

/-- A gap and the first character of the token behind it are cut off. -/
theorem cutsOff_skipGap {cs rest : List Glyph} {g : Glyph} {broken : Bool}
    (h : skipGap cs = .ok (broken, g :: rest)) :
    CutsOff i j cs rest fun cs' rest' =>
      ∃ g', g.Twin i j g' ∧ skipGap cs' = .ok (broken, g' :: rest') := by
  fun_induction skipGap cs generalizing broken with
  | case1 => cases h
  | case2 first more hgap ih =>
    obtain ⟨later, hmore, rfl⟩ := exists_of_map_skipGap h
    refine ((ih hmore).cons first).mono ?_
    rintro _ rest' - - ⟨first', more', rfl, hfirst, -, g', hg, hskip⟩
    refine ⟨g', hg, ?_⟩
    rw [skipGap_of_isGap _ (by rwa [hfirst.char]), hskip, hfirst.char]
    rfl
  | case3 first hgap hslash o more ih =>
    -- the line ends at a break, and so it does in the other text
    have hline : CutsOff i j more (more.dropWhile fun g => !isBreak g.char) fun more' left' =>
        (more'.dropWhile fun g => !isBreak g.char) = left' := by
      refine (CutsOff.dropWhile (p := fun c => !isBreak c) more fun behind' hahead => ?_).mono
        fun _ _ _ _ h => h.1
      cases hleft : more.dropWhile fun g => !isBreak g.char with
      | nil => rw [hleft, skipGap] at h; cases h
      | cons b left =>
        have hb : isBreak b.char = true := by
          simpa [hleft] using
            List.head_dropWhile_not (fun g : Glyph => !isBreak g.char) (l := more) (by simp [hleft])
        have hapart : isApart b.char = false := by
          unfold isBreak at hb
          unfold isApart
          simp at hb ⊢
          rcases hb with ((hb | hb) | hb) | hb <;> simp [hb]
        rw [hleft] at hahead
        obtain ⟨o', left', rfl⟩ :=
          head?_eq_some_iff.1 ((head?_eq_some_iff_of_ahead hahead hapart).1 rfl)
        simp [hb]
    refine (((hline.trans (ih h)).cons ⟨o, '/'⟩).cons first).mono ?_
    rintro _ rest' - - ⟨first', _, rfl, hfirst, -, slash', more', rfl, hslash', -, _, rfl, g', hg, hskip⟩
    exact ⟨g', hg, by rw [skipGap_of_line more' (hfirst.char.trans hslash) hslash'.char, hskip]⟩
  | case4 => cases h
  | case5 first hgap hslash o more inside left hcomment ih =>
    obtain ⟨later, hleft, rfl⟩ := exists_of_map_skipGap h
    refine ((((cutsOff_blockComment? hcomment).trans (ih hleft)).cons ⟨o, '*'⟩).cons first).mono ?_
    rintro _ rest' - - ⟨first', _, rfl, hfirst, -, star', more', rfl, hstar', -, _, hblock, g', hg, hskip⟩
    refine ⟨g', hg, ?_⟩
    rw [skipGap_of_block (hfirst.char.trans hslash) hstar'.char hblock, hskip]
    rfl
  | case6 _ _ hgap hslash hline hblock =>
    obtain ⟨⟨⟩⟩ := h
    refine ((CutsOff.refl rest).cons g).mono ?_
    rintro _ rest' - - ⟨g', _, rfl, hg, hahead, rfl, -⟩
    refine ⟨g', hg, skipGap_of_slash (hg.char.trans hslash) ?_ ?_⟩
    · rw [Ne, ← head?_eq_some_iff_of_ahead hahead (by decide), head?_eq_some_iff]
      rintro ⟨o, behind, h⟩
      exact hline o behind h
    · rw [Ne, ← head?_eq_some_iff_of_ahead hahead (by decide), head?_eq_some_iff]
      rintro ⟨o, behind, h⟩
      exact hblock o behind h
  | case7 _ _ hgap hslash =>
    obtain ⟨⟨⟩⟩ := h
    refine ((CutsOff.refl rest).cons g).mono ?_
    rintro _ _ - - ⟨g', rest', rfl, hg, -, rfl, -⟩
    refine ⟨g', hg, skipGap_of_not_isGap rest' ?_ ?_⟩
    · rw [hg.char]
      simpa using hgap
    · rwa [hg.char]

/-- The characters at the front that satisfy `p` are the same in two texts, and so is what is behind
them. -/
lemma twin_dropWhile {p : Char → Bool} {cs cs' : List Glyph} (h : Twin i j cs cs') :
    Twin i j (cs.dropWhile fun g => p g.char) (cs'.dropWhile fun g => p g.char) := by
  induction h with
  | nil => exact .nil
  | @cons g g' rest rest' hg hrest ih =>
    rw [List.dropWhile_cons, List.dropWhile_cons, hg.char]
    split
    · exact ih
    · exact .cons hg hrest

/-- Texts with the same characters look the same. -/
lemma ahead_of_twin {cs cs' : List Glyph} (h : Twin i j cs cs') : ahead cs = ahead cs' := by
  rw [ahead, ahead, chars_of_twin h]

/-- A text that is a gap is one elsewhere as well. -/
lemma skipGap_eq_nil_of_twin {cs cs' : List Glyph} {broken : Bool}
    (h : skipGap cs = .ok (broken, [])) (htwin : Twin i j cs cs') :
    skipGap cs' = .ok (broken, []) := by
  fun_induction skipGap cs generalizing broken cs' with
  | case1 =>
    cases htwin
    rw [skipGap, ← h]
  | case2 g rest hgap ih =>
    obtain ⟨later, hrest⟩ := exists_of_map_eq_ok h
    rcases htwin with - | ⟨hg, htwin⟩
    rw [skipGap_of_isGap _ (by rwa [hg.char]), ih hrest htwin, hg.char, ← h, hrest]
  | case3 g hgap hslash o rest ih =>
    rcases htwin with - | ⟨hg, - | ⟨hg', htwin⟩⟩
    rw [skipGap_of_line _ (hg.char.trans hslash) hg'.char]
    exact ih h (twin_dropWhile (p := fun c => !isBreak c) htwin)
  | case4 => cases h
  | case5 g hgap hslash o rest inside behind hcomment ih =>
    obtain ⟨later, hbehind⟩ := exists_of_map_eq_ok h
    rcases htwin with - | ⟨hg, - | ⟨hg', htwin⟩⟩
    obtain ⟨front, rfl, hcut⟩ := cutsOff_blockComment? (i := i) (j := j) hcomment
    obtain ⟨front', behind', rfl, hfront, htwin⟩ := exists_append_of_forall₂ htwin
    have hcomment' := hcut front' behind' hfront (ahead_of_twin htwin)
    rw [skipGap_of_block (hg.char.trans hslash) hg'.char hcomment', ih hbehind htwin, ← h, hbehind]
  | case6 => cases h
  | case7 => cases h

end Gaps

/-! ## Strings -/

section Literals

variable {i j : Nat}

/-- The body of a string literal, by its first characters. -/
lemma stringBody?_escape {quote : Char} {g e : Glyph} (behind : List Glyph) (hg : g.char = '\\') :
    stringBody? quote (g :: e :: behind) =
      if e.char = '\r' ∧ behind.head?.map Glyph.char = some '\n' then
        (stringBody? quote behind.tail).map fun (body, behind) =>
          ('\\' :: '\r' :: '\n' :: body, behind)
      else (stringBody? quote behind).map fun (body, behind) => ('\\' :: e.char :: body, behind) := by
  obtain ⟨o, d⟩ := e
  rw [stringBody?.eq_def]
  simp only [hg, if_true]
  split
  · next heq => cases heq
  · next heq =>
    obtain ⟨⟨⟩, rfl⟩ := List.cons.inj heq
    simp
  · next hline heq =>
    obtain ⟨⟨⟩, rfl⟩ := List.cons.inj heq
    rw [if_neg]
    rintro ⟨rfl, hfeed⟩
    obtain ⟨o', left, rfl⟩ := head?_eq_some_iff.1 hfeed
    exact hline _ _ _ rfl rfl

/-- The body of a string literal is cut off. -/
lemma cutsOff_stringBody? {quote : Char} {cs behind : List Glyph} {body : List Char}
    (h : stringBody? quote cs = some (body, behind)) :
    CutsOff i j cs behind fun cs' behind' => stringBody? quote cs' = some (body, behind') := by
  fun_induction stringBody? quote cs generalizing body with
  | case1 => cases h
  | case2 => cases h
  | case3 g hg o o' rest ih =>
    simp only [Option.map_eq_some_iff, Prod.mk.injEq, Prod.exists] at h
    obtain ⟨inside, _, hrest, rfl, rfl⟩ := h
    refine ((((ih hrest).cons ⟨o', '\n'⟩).cons ⟨o, '\r'⟩).cons g).mono ?_
    rintro _ behind' - - ⟨g', _, rfl, hg', -, cr', _, rfl, hcr, -, lf', rest', rfl, hlf, -, hbody⟩
    rw [stringBody?_escape _ (hg'.char.trans hg), if_pos ⟨hcr.char, by simp [hlf.char]⟩]
    rw [List.tail_cons, hbody]
    rfl
  | case4 g hg e rest hline ih =>
    simp only [Option.map_eq_some_iff, Prod.mk.injEq, Prod.exists] at h
    obtain ⟨inside, _, hrest, rfl, rfl⟩ := h
    refine (((ih hrest).cons e).cons g).mono ?_
    rintro _ behind' - - ⟨g', _, rfl, hg', -, e', rest', rfl, he, hahead, hbody⟩
    rw [stringBody?_escape _ (hg'.char.trans hg), if_neg, hbody, he.char]
    · rfl
    · rw [he.char, ← head?_eq_some_iff_of_ahead hahead (by decide), head?_eq_some_iff]
      rintro ⟨hcr, o', left, rfl⟩
      obtain ⟨o, _⟩ := e
      exact hline o o' left (by rw [← hcr]) rfl
  | case5 g rest hescape hquote =>
    obtain ⟨⟨⟩, ⟨⟩⟩ := h
    refine ((CutsOff.refl behind).cons g).mono ?_
    rintro _ behind' - - ⟨g', _, rfl, hg, -, rfl, -⟩
    rw [stringBody?.eq_def]
    simp only [hg.char, if_neg hescape, if_pos hquote]
  | case6 => cases h
  | case7 g rest hescape hquote hbreak ih =>
    simp only [Option.map_eq_some_iff, Prod.mk.injEq, Prod.exists] at h
    obtain ⟨inside, _, hrest, rfl, rfl⟩ := h
    refine ((ih hrest).cons g).mono ?_
    rintro _ behind' - - ⟨g', rest', rfl, hg, -, hbody⟩
    rw [stringBody?.eq_def]
    simp only [hg.char, if_neg hescape, if_neg hquote, if_neg hbreak, hbody]
    rfl

/-- What was found at the front of a text, and what is behind it. -/
def found? {α : Type} {cs : List Glyph} : Except Fault (Found α cs) → Option (α × List Glyph)
  | .ok found => some (found.value, found.behind)
  | .error _ => none

/-- A find at the front of the end of a text. -/
lemma found?_within {α : Type} {cs ds : List Glyph} (r : Except Fault (Found α ds))
    (h : ds.length ≤ cs.length) : found? (r.map (·.within h)) = found? r := by
  cases r <;> rfl

/-- A string literal, by its body. -/
lemma found?_stringLiteral (g : Glyph) (cs : List Glyph) :
    found? (stringLiteral g cs) = (stringBody? g.char cs).bind fun (body, behind) =>
      (unescape body).toOption.map fun text => (String.ofList text, behind) := by
  unfold stringLiteral
  split
  · next hnone => simp [found?, hnone]
  · next body behind hsome =>
    cases htext : unescape body <;> simp [found?, Except.toOption, hsome, htext]

/-- A string literal is cut off. -/
theorem cutsOff_stringLiteral {g : Glyph} {cs behind : List Glyph} {s : String}
    (h : found? (stringLiteral g cs) = some (s, behind)) :
    CutsOff i j cs behind fun cs' behind' => ∀ g' : Glyph, g'.char = g.char →
      found? (stringLiteral g' cs') = some (s, behind') := by
  rw [found?_stringLiteral] at h
  obtain ⟨⟨body, _⟩, hbody, htext⟩ := Option.bind_eq_some_iff.1 h
  obtain ⟨text, hescape, ⟨⟩⟩ := Option.map_eq_some_iff.1 htext
  refine (cutsOff_stringBody? hbody).mono fun cs' behind' _ _ hbody' g' hg => ?_
  rw [found?_stringLiteral, hg, hbody', Option.bind_some]
  dsimp only
  rw [hescape]
  rfl

end Literals

end CardTable.Script
