import CardTable.Proofs.Source.DroppedTypes
import CardTable.Proofs.Script.Expressions.JsonTexts
import CardTable.Proofs.Script.Grammar.Statements

set_option autoImplicit false

/-!
# Tokens of a text without types

Types are dropped from the text of a body before it is evaluated, and they are found by their
looks. If what is found are declarations of the body, each with an annotation up to the equals sign,
or stands in a comment, then the text without the types has the tokens of the body without these
annotations.

## Main definitions

* `CardTable.Script.IsDeclared` — what was found is a declaration of the body.
* `CardTable.Script.IsCommented` — what was found stands in a comment.

## Main results

* `CardTable.Script.lexemes_drops` — the tokens of a text without types are its tokens without
  annotations.
-/

namespace CardTable.Script

open CardTable.Source (TypedDeclaration continuesName)
open CardTable.Text (isWhite)
open Reader

/-! ## What is found -/

/-- The stretch `s` is a declaration among the tokens `ts`, from its keyword to its equals sign,
with an annotation behind its colon. -/
def IsDeclared (ts : List Lexeme) (s : List Glyph) : Prop :=
  ∃ front keyword name colon type equals behind,
    ts = front ++ keyword :: name :: colon :: (type ++ equals :: behind) ∧
      IsDeclaredType 0 type ∧ s.head?.map Glyph.offset = some keyword.offset ∧
      s.getLast?.map Glyph.offset = some equals.offset

/-- The stretch `s` stands between the tokens `ts`, in a comment that it does not end. -/
def IsCommented (ts : List Lexeme) (s : List Glyph) : Prop :=
  (∀ t ∈ ts, ∀ g ∈ t.source, g ∉ s) ∧ EndsNoComment s

/-- The stretch `s` can be put down without its type. -/
def IsErasable (ts : List Lexeme) (s : List Glyph) : Prop :=
  IsDeclared ts s ∨ IsCommented ts s

/-! ## Tokens and their offsets -/

section Offsets

variable {gs : List Glyph} {ts us vs : List Lexeme} {t : Lexeme}

/-- The tokens of a text, by the first one. -/
lemma lexemes_cases (h : lexemes gs = .ok ts) :
    (∃ broken, skipGap gs = .ok (broken, []) ∧ ts = []) ∨
      ∃ broken g rest t behind more, skipGap gs = .ok (broken, g :: rest) ∧
        token g rest = .ok (t, behind) ∧ lexemes behind = .ok more ∧
        ts = ⟨t, g.offset, broken, frontOf (g :: rest) behind⟩ :: more := by
  obtain ⟨left, broken, hscans, hend⟩ := Scans.of_lexemes h
  cases hscans with
  | nil => exact .inl ⟨broken, hend, rfl⟩
  | @cons _ _ behind _ _ _ _ more hgap htoken hscans =>
    refine .inr ⟨_, _, _, _, _, _, hgap, htoken, ?_, rfl⟩
    rw [hscans.lexemes_eq, lexemes_of_end hend]
    exact congrArg Except.ok (List.append_nil _)

/-- Behind a gap there is none. -/
lemma skipGap_idem {left : List Glyph} {broken : Bool} (h : skipGap gs = .ok (broken, left)) :
    skipGap left = .ok (false, left) := by
  fun_induction skipGap gs generalizing broken with
  | case1 =>
    obtain ⟨⟨⟩⟩ := h
    rw [skipGap]
  | case2 g rest _ ih =>
    obtain ⟨_, hrest⟩ := exists_of_map_eq_ok h
    exact ih hrest
  | case3 g _ _ _ rest ih => exact ih h
  | case4 => cases h
  | case5 g _ _ _ rest _ behind hcomment ih =>
    obtain ⟨_, hbehind⟩ := exists_of_map_eq_ok h
    exact ih hbehind
  | case6 g rest _ hslash hline hblock =>
    obtain ⟨⟨⟩⟩ := h
    refine skipGap_of_slash hslash ?_ ?_
    · rw [Ne, head?_eq_some_iff]
      rintro ⟨o, behind, h⟩
      exact hline o behind h
    · rw [Ne, head?_eq_some_iff]
      rintro ⟨o, behind, h⟩
      exact hblock o behind h
  | case7 g rest hg hslash =>
    obtain ⟨⟨⟩⟩ := h
    exact skipGap_of_not_isGap _ (by simpa using hg) hslash

/-- What is behind a token ends the text. -/
lemma exists_of_token {g : Glyph} {rest behind : List Glyph} {t : Token}
    (h : token g rest = .ok (t, behind)) : ∃ front, rest = front ++ behind :=
  (cutsOff_token (i := 0) (j := 0) h).exists_front

/-- Every token stands at the offset of a character. -/
lemma exists_offset_eq (h : lexemes gs = .ok ts) (ht : t ∈ ts) :
    ∃ g ∈ gs, g.offset = t.offset := by
  induction ts generalizing gs with
  | nil => cases ht
  | cons first ts ih =>
    obtain ⟨-, -, ⟨⟩⟩ | ⟨_, g, rest, _, behind, _, hgap, htoken, hmore, ⟨⟩⟩ := lexemes_cases h
    have hsuffix := isSuffix_of_skipGap hgap
    rcases List.mem_cons.1 ht with rfl | ht
    · exact ⟨g, hsuffix.mem (List.mem_cons_self ..), rfl⟩
    · obtain ⟨x, hx, hoffset⟩ := ih hmore ht
      obtain ⟨front, rfl⟩ := exists_of_token htoken
      exact ⟨x, hsuffix.mem (List.mem_cons_of_mem _ (List.mem_append_right _ hx)), hoffset⟩

/-- Tokens stand one behind the other. -/
lemma offset_lt_of_lexemes (hgs : IsLocated gs) (h : lexemes gs = .ok (us ++ vs)) {u v : Lexeme}
    (hu : u ∈ us) (hv : v ∈ vs) : u.offset < v.offset := by
  induction us generalizing gs with
  | nil => cases hu
  | cons first us ih =>
    obtain ⟨-, -, ⟨⟩⟩ | ⟨_, g, rest, _, behind, _, hgap, htoken, hmore, ⟨⟩⟩ := lexemes_cases h
    obtain ⟨front, rfl⟩ := exists_of_token htoken
    have hrest : IsLocated (g :: front ++ behind) := hgs.of_suffix (isSuffix_of_skipGap hgap)
    rcases List.mem_cons.1 hu with rfl | hu
    · obtain ⟨x, hx, hoffset⟩ := exists_offset_eq hmore (List.mem_append_right _ hv)
      rw [← hoffset]
      exact hrest.lt (List.mem_cons_self ..) hx
    · exact ih hrest.right hmore hu

/-- Up to a token the tokens stand in front of it. -/
lemma offset_le_of_lexemes (hgs : IsLocated gs) (h : lexemes gs = .ok (us ++ t :: vs))
    {u : Lexeme} (hu : u ∈ us ++ [t]) : u.offset ≤ t.offset := by
  rcases List.mem_append.1 hu with hu | hu
  · exact (offset_lt_of_lexemes hgs h hu (List.mem_cons_self ..)).le
  · rw [List.mem_singleton.1 hu]

/-- In a located text a character is found by its offset. -/
lemma IsLocated.eq_of_offset_eq {front front' behind behind' : List Glyph} {g g' : Glyph}
    (h : IsLocated (front ++ g :: behind))
    (hsame : front ++ g :: behind = front' ++ g' :: behind') (hoffset : g.offset = g'.offset) :
    front = front' ∧ g :: behind = g' :: behind' := by
  rcases List.append_eq_append_iff.1 hsame with ⟨middle, rfl, hmiddle⟩ | ⟨middle, rfl, hmiddle⟩
  · cases middle with
    | nil => exact ⟨(List.append_nil _).symm, hmiddle⟩
    | cons x middle =>
      obtain ⟨rfl, rfl⟩ := List.cons.inj hmiddle
      have hlt := h.right.head_lt (g := g)
        (List.mem_append_right _ (List.mem_cons_self ..))
      omega
  · cases middle with
    | nil => exact ⟨List.append_nil _, hmiddle.symm⟩
    | cons x middle =>
      obtain ⟨rfl, rfl⟩ := List.cons.inj hmiddle
      rw [List.append_assoc] at h
      have hlt := h.right.head_lt (g := g')
        (List.mem_append_right _ (List.mem_cons_self ..))
      omega

/-- The token at an equals sign, and the tokens behind it. -/
lemma lexemes_behind_equals {front left : List Glyph} {e : Nat}
    (hgs : IsLocated (front ++ ⟨e, '='⟩ :: left))
    (h : lexemes (front ++ ⟨e, '='⟩ :: left) = .ok (us ++ t :: vs)) (ht : t.offset = e) :
    IsPunct '=' t ∧ lexemes left = .ok vs := by
  induction us generalizing front with
  | nil =>
    obtain ⟨-, -, ⟨⟩⟩ | ⟨_, g, rest, _, behind, _, hgap, htoken, hmore, ⟨⟩⟩ := lexemes_cases h
    obtain ⟨front', hfront'⟩ := isSuffix_of_skipGap hgap
    obtain ⟨-, heq⟩ := hgs.eq_of_offset_eq hfront'.symm ht.symm
    obtain ⟨rfl, rfl⟩ := List.cons.inj heq
    have hsign := @token_of_sign ⟨e, '='⟩ left
      (by decide : ¬ startsWord '=' = true) (by simp) (by simp) (by simp)
    obtain ⟨⟨⟩⟩ := hsign.symm.trans htoken
    exact ⟨rfl, hmore⟩
  | cons first us ih =>
    obtain ⟨-, -, ⟨⟩⟩ | ⟨_, g, rest, _, behind, _, hgap, htoken, hmore, ⟨⟩⟩ := lexemes_cases h
    obtain ⟨gap, hgap⟩ := isSuffix_of_skipGap hgap
    obtain ⟨spelling, rfl⟩ := exists_of_token htoken
    -- the equals sign stands behind the first token, where a later one does
    obtain ⟨x, hx, hoffset⟩ := exists_offset_eq hmore (t := t) (by simp)
    obtain ⟨front', behind', rfl⟩ := List.append_of_mem hx
    have hsame :
        front ++ ⟨e, '='⟩ :: left = (gap ++ g :: (spelling ++ front')) ++ x :: behind' := by
      rw [← hgap]
      simp
    obtain ⟨-, heq⟩ := hgs.eq_of_offset_eq hsame (by rw [hoffset, ht])
    rw [← heq] at hmore
    refine ih ?_ hmore
    rw [hsame, ← heq] at hgs
    exact hgs.of_suffix ⟨gap ++ g :: spelling, by simp⟩

end Offsets

/-! ## The tokens of a declaration -/

section Declaration

variable {left : List Glyph} {cs : List Char} {t : Lexeme} {ts : List Lexeme} {o : Nat}

/-- White space in front of tokens is skipped. -/
lemma Scans.white {white : List Char} (cs : List Char) (hwhite : ∀ c ∈ white, isWhite c = true)
    (h : Scans (locate (o + Text.byteCount white) cs ++ left) (t :: ts) left) :
    ∃ t', Scans (locate o (white ++ cs) ++ left) (t' :: ts) left ∧ t'.token = t.token := by
  cases h with
  | @cons _ rest behind _ g broken u _ hgap htoken hscans =>
  suffices hskip : ∃ broken', skipGap (locate o (white ++ cs) ++ left) = .ok (broken', g :: rest) by
    obtain ⟨broken', hskip⟩ := hskip
    exact ⟨_, .cons hskip htoken hscans, rfl⟩
  induction white generalizing o with
  | nil => exact ⟨broken, hgap⟩
  | cons c white ih =>
    rw [Text.byteCount, ← Nat.add_assoc] at hgap
    obtain ⟨broken', hskip⟩ := ih (fun d hd => hwhite d (List.mem_cons_of_mem _ hd)) hgap
    have hc := (of_isWhite (hwhite c (List.mem_cons_self ..))).1
    exact ⟨_, by rw [List.cons_append, locate, List.cons_append,
      skipGap_of_isGap (g := ⟨o, c⟩) _ hc, hskip]; rfl⟩

/-- White space does not go on with a word. -/
lemma head?_white {white : List Char} (hwhite : ∀ c ∈ white, isWhite c = true)
    (hcs : white = [] → (locate o cs ++ left).head?.any (fun g => continuesWord g.char) = false) :
    (locate o (white ++ cs) ++ left).head?.any (fun g => continuesWord g.char) = false := by
  cases white with
  | nil => exact hcs rfl
  | cons c white => exact (of_isWhite (hwhite c (List.mem_cons_self ..))).2.1

/-- A plain name in front of tokens is a word. -/
lemma Scans.name {name : List Char} (cs : List Char) (hname : Source.isName name = true)
    (hcs : (locate (o + Text.byteCount name) cs ++ left).head?.any
      (fun g => continuesWord g.char) = false)
    (h : Scans (locate (o + Text.byteCount name) cs ++ left) ts left) :
    ∃ t, Scans (locate o (name ++ cs) ++ left) (t :: ts) left ∧
      t.token = .word (String.ofList name) ∧ t.afterBreak = false := by
  cases name with
  | nil => cases hname
  | cons c name =>
    rw [Source.isName, Bool.and_eq_true, List.all_eq_true] at hname
    obtain ⟨hc, hword⟩ := hname
    obtain ⟨-, -, -, hstart⟩ := of_continuesName (c := c) (by rw [continuesName, hc, Bool.true_or])
    obtain ⟨t, hscans, ht, -, hbreak⟩ := exists_scans_word (hstart hc).1 (hstart hc).2
      (fun d hd => (of_continuesName (hword d hd)).1) o _ hcs
    rw [locate_append, List.append_assoc]
    exact ⟨t, hscans.append h, ht, hbreak⟩

/-- So is the keyword of a declaration. -/
lemma isName_of_mem_declarators {word : List Char} (h : word ∈ Source.declarators) :
    Source.isName word = true ∧ isDeclarator (String.ofList word) = true := by
  simp only [Source.declarators, List.mem_cons, List.not_mem_nil, or_false] at h
  rcases h with rfl | rfl | rfl <;> decide

/-- The pieces of the text of a declaration, located. -/
lemma exists_locate_text (d : TypedDeclaration) (o : Nat) : ∃ o₁ o₂, locate o d.text =
    locate o (d.head.keyword ++ d.nameText) ++ (locate o₁ d.type ++ [⟨o₂, '='⟩]) := by
  rw [TypedDeclaration.text, ← List.append_assoc, locate_append, locate_append _ d.type]
  exact ⟨_, _, rfl⟩

/-- The tokens of a declaration up to its type. -/
lemma exists_scans_text (d : TypedDeclaration) (o : Nat) (left : List Glyph) :
    ∃ keyword name colon, Scans (locate o (d.head.keyword ++ d.nameText) ++ left)
        [keyword, name, colon] left ∧
      keyword.token = .word (String.ofList d.head.keyword) ∧
      name.token = .word (String.ofList d.head.name) ∧ IsPunct ':' colon := by
  have hkeyword := (isName_of_mem_declarators d.keyword_mem).1
  have hcolon : ∀ o, ∃ colon,
      Scans (locate o (d.space ++ [':']) ++ left) [colon] left ∧ IsPunct ':' colon := by
    intro o
    obtain ⟨colon, hscans, hcolon, -⟩ :=
      exists_scans_sign (c := ':') left rfl (o + Text.byteCount d.space)
    obtain ⟨colon', hscans', htoken⟩ := Scans.white [':'] d.isWhite_space hscans
    exact ⟨colon', hscans', htoken.trans hcolon⟩
  have hname : ∀ o, ∃ name colon,
      Scans (locate o (d.head.name ++ (d.space ++ [':'])) ++ left) [name, colon] left ∧
        name.token = .word (String.ofList d.head.name) ∧ IsPunct ':' colon := by
    intro o
    obtain ⟨colon, hscans, hcolon⟩ := hcolon (o + Text.byteCount d.head.name)
    obtain ⟨name, hscans', hname, -⟩ :=
      hscans.name _ d.isName (head?_white d.isWhite_space fun _ => rfl)
    exact ⟨name, colon, hscans', hname, hcolon⟩
  obtain ⟨name, colon, hscans, hname, hcolon⟩ :=
    hname (o + Text.byteCount d.head.keyword + Text.byteCount d.white)
  obtain ⟨name', hscans', htoken⟩ :=
    Scans.white (d.head.name ++ (d.space ++ [':'])) d.isWhite_white hscans
  obtain ⟨keyword, hscans'', hword, -⟩ :=
    hscans'.name _ hkeyword (head?_white d.isWhite_white fun h => absurd h d.white_ne_nil)
  exact ⟨keyword, name', colon, hscans'', hword, htoken.trans hname, hcolon⟩

/-- The tokens of a declaration without its type. -/
lemma exists_scans_bare (d : TypedDeclaration) (o : Nat) (left : List Glyph) :
    ∃ keyword name equals, Scans (locate o d.bare ++ left) [keyword, name, equals] left ∧
      keyword.token = .word (String.ofList d.head.keyword) ∧ keyword.afterBreak = false ∧
      name.token = .word (String.ofList d.head.name) ∧ name.afterBreak = false ∧
      IsPunct '=' equals := by
  have hkeyword := (isName_of_mem_declarators d.keyword_mem).1
  have hname : ∀ o, ∃ name equals,
      Scans (locate o (d.head.name ++ [' ', '=']) ++ left) [name, equals] left ∧
        name.token = .word (String.ofList d.head.name) ∧ name.afterBreak = false ∧
        IsPunct '=' equals := by
    intro o
    obtain ⟨equals, hscans, hequals, -⟩ :=
      exists_scans_sign (c := '=') left rfl (o + Text.byteCount d.head.name + 1)
    obtain ⟨name, hscans', hname, hbreak⟩ :=
      Scans.name [' ', '='] d.isName rfl (hscans.blank (o + Text.byteCount d.head.name))
    exact ⟨name, equals, hscans', hname, hbreak, hequals⟩
  obtain ⟨name, equals, hscans, hname, hbreak, hequals⟩ :=
    hname (o + Text.byteCount d.head.keyword + 1)
  obtain ⟨keyword, hscans', hword, hfirst⟩ :=
    Scans.name (' ' :: (d.head.name ++ [' ', '='])) hkeyword rfl
      (hscans.blank (o + Text.byteCount d.head.keyword))
  exact ⟨keyword, name, equals, hscans', hword, hfirst, hname, hbreak, hequals⟩

end Declaration

/-! ## Tokens without annotations -/

section Tokens

variable {gs front left rest behind : List Glyph} {cs : List Char} {ts pre more : List Lexeme}
  {s : List Glyph} {g : Glyph} {t : Token} {broken : Bool}

/-- A declaration begins where its keyword stands. -/
lemma IsDeclared.exists_keyword (h : IsDeclared ts s) :
    ∃ keyword ∈ ts, ∃ g, s.head? = some g ∧ g.offset = keyword.offset := by
  obtain ⟨front, keyword, name, colon, type, equals, behind, rfl, -, hhead, -⟩ := h
  exact ⟨keyword, List.mem_append_right _ (List.mem_cons_self ..), Option.map_eq_some_iff.1 hhead⟩

/-- A stretch behind some tokens is one among those that are left. -/
lemma IsErasable.of_append (pre : List Lexeme) (h : IsErasable (pre ++ more) s)
    (hpre : ∀ t ∈ pre, ∀ g ∈ s.head?, g.offset ≠ t.offset) : IsErasable more s := by
  rcases h with ⟨front, keyword, name, colon, type, equals, behind, hts, htype, hhead,
    hlast⟩ | ⟨houtside, hends⟩
  · refine .inl ?_
    obtain ⟨g, hg, hoffset⟩ := Option.map_eq_some_iff.1 hhead
    have hkeyword : keyword ∉ pre := fun hmem => hpre keyword hmem g hg hoffset
    rcases List.append_eq_append_iff.1 hts with ⟨middle, rfl, rfl⟩ | ⟨middle, rfl, hmiddle⟩
    · exact ⟨middle, keyword, name, colon, type, equals, behind, rfl, htype, hhead,
        hlast⟩
    · cases middle with
      | nil => exact ⟨[], keyword, name, colon, type, equals, behind, hmiddle.symm,
          htype, hhead, hlast⟩
      | cons x middle =>
        obtain ⟨rfl, -⟩ := List.cons.inj hmiddle
        exact absurd (List.mem_append_right _ (List.mem_cons_self ..)) hkeyword
  · exact .inr ⟨fun t ht => houtside t (List.mem_append_right _ ht), hends⟩

/-- What is dropped elsewhere does not count. -/
lemma Drops.imp {ok ok' : List Glyph → Prop} (h : Drops ok gs cs)
    (himp : ∀ s, ok s → (∀ g ∈ s.head?, g ∈ gs) → ok' s) : Drops ok' gs cs := by
  induction h with
  | nil => exact .nil
  | keep g _ ih =>
    exact .keep g (ih fun s hs hmem => himp s hs fun x hx => List.mem_cons_of_mem _ (hmem x hx))
  | declaration d hs hok _ ih =>
    refine .declaration d hs (himp _ hok fun x hx => ?_)
      (ih fun s hs hmem => himp s hs fun x hx => ?_)
    · exact List.mem_append_left _ (List.mem_of_mem_head? hx)
    · exact List.mem_append_right _ (hmem x hx)

/-- Where no stretch begins everything is kept. -/
lemma Drops.exists_append {ok : List Glyph → Prop} (h : Drops ok (front ++ left) cs)
    (hok : ∀ s, ok s → ∀ g ∈ s.head?, g ∉ front) :
    ∃ behind, cs = chars front ++ behind ∧ Drops ok left behind := by
  induction front generalizing cs with
  | nil => exact ⟨cs, rfl, h⟩
  | cons g front ih =>
    rcases h.cases_cons with ⟨cs, rfl, hrest⟩ | ⟨d, s, _, _, _, _, hs, _⟩
    · obtain ⟨behind, rfl, hleft⟩ :=
        ih hrest fun s hs x hx hmem => hok s hs x hx (List.mem_cons_of_mem _ hmem)
      exact ⟨behind, rfl, hleft⟩
    · exact absurd (List.mem_cons_self ..) (hok _ hs g rfl)

/-- A token is the same one in front of a text without types. -/
lemma exists_token_of_drops {ok : List Glyph → Prop} (hgs : IsLocated (g :: front ++ behind))
    (htoken : token g (front ++ behind) = .ok (t, behind)) (h : Drops ok behind cs) (o : Nat) :
    ∃ t' o', token ⟨o, g.char⟩ (locate (o + g.char.utf8Size) (chars front ++ cs)) =
      .ok (t', locate o' cs) ∧ ∃ i j, t.Twin i j t' := by
  obtain ⟨o₁, hfront⟩ := hgs.left
  have htwin := twin_locate o o₁ (chars (g :: front))
  rw [← hfront] at htwin
  rcases htwin with - | ⟨hg, htwin⟩
  obtain ⟨front', hsame, hcut⟩ := cutsOff_token (i := o) (j := o₁) htoken
  obtain rfl := List.append_cancel_right hsame
  obtain ⟨t', htoken', ht⟩ := hcut _ _ htwin
    (h.ahead_eq (o + g.char.utf8Size + Text.byteCount (chars front))).symm ⟨o, g.char⟩ hg
  refine ⟨t', o + g.char.utf8Size + Text.byteCount (chars front), ?_, o, o₁, ht⟩
  rw [locate_append]
  exact htoken'

section First

variable (hgs : IsLocated gs) (hgap : skipGap gs = .ok (broken, g :: rest))
  (htoken : token g rest = .ok (t, behind)) (hmore : lexemes behind = .ok more)
include hgs hgap htoken hmore

/-- The first token stands in front of the others. -/
lemma offset_lt_of_mem {u : Lexeme} (hu : u ∈ more) : g.offset < u.offset := by
  obtain ⟨front, rfl⟩ := exists_of_token htoken
  have hlocated : IsLocated (g :: front ++ behind) := hgs.of_suffix (isSuffix_of_skipGap hgap)
  obtain ⟨x, hx, hoffset⟩ := exists_offset_eq hmore hu
  rw [← hoffset]
  exact hlocated.lt (List.mem_cons_self ..) hx

/-- In front of the first token nothing is found but in comments. -/
lemma endNoComment_first :
    EndNoComment (IsErasable (⟨t, g.offset, broken, frontOf (g :: rest) behind⟩ :: more))
      (g :: rest) := by
  rintro s (hdeclared | ⟨-, hends⟩) hbefore
  · obtain ⟨keyword, hkeyword, x, hx, hoffset⟩ := hdeclared.exists_keyword
    have hlt := hbefore x hx g (List.mem_cons_self ..)
    rcases List.mem_cons.1 hkeyword with rfl | hmem
    · dsimp only at hoffset
      omega
    · have := offset_lt_of_mem hgs hgap htoken hmore hmem
      omega
  · exact hends

/-- Inside the first token nothing is found. -/
lemma not_mem_spelling (hrest : rest = front ++ behind)
    (hs : IsErasable (⟨t, g.offset, broken, frontOf (g :: rest) behind⟩ :: more) s) :
    ∀ x ∈ s.head?, x ∉ front := by
  subst hrest
  have hlocated : IsLocated (g :: front ++ behind) := hgs.of_suffix (isSuffix_of_skipGap hgap)
  intro x hx hmem
  rcases hs with hdeclared | ⟨houtside, -⟩
  · obtain ⟨keyword, hkeyword, y, hy, hoffset⟩ := hdeclared.exists_keyword
    obtain rfl := Option.some.inj (hx.symm.trans hy)
    rcases List.mem_cons.1 hkeyword with rfl | hkeyword
    · have hlt := hlocated.left.head_lt hmem
      dsimp only at hoffset
      omega
    · obtain ⟨z, hz, hoffset'⟩ := exists_offset_eq hmore hkeyword
      have hlt := hlocated.lt (List.mem_cons_of_mem _ hmem) hz
      omega
  · refine houtside _ (List.mem_cons_self ..) x ?_ (List.mem_of_mem_head? hx)
    dsimp only
    rw [← List.cons_append, frontOf_append hlocated]
    exact List.mem_cons_of_mem _ hmem

/-- A stretch at the first token is a declaration, whose tokens the first ones are. -/
lemma exists_of_stretch {d : TypedDeclaration} (hrest : rest = s ++ left)
    (hs : chars (g :: s) = d.text)
    (hok : IsErasable (⟨t, g.offset, broken, frontOf (g :: rest) behind⟩ :: more) (g :: s)) :
    ∃ name colon type equals us, more = name :: colon :: (type ++ equals :: us) ∧
      t = .word (String.ofList d.head.keyword) ∧ name.token = .word (String.ofList d.head.name) ∧
      IsPunct ':' colon ∧ IsDeclaredType 0 type ∧ IsPunct '=' equals ∧
      lexemes left = .ok us ∧ ∀ x ∈ left, equals.offset < x.offset := by
  subst hrest
  have hlocated : IsLocated (g :: s ++ left) := hgs.of_suffix (isSuffix_of_skipGap hgap)
  have hdeclared := hok.resolve_right fun hcommented => by
    obtain ⟨front, hfront⟩ := exists_of_token htoken
    refine hcommented.1 _ (List.mem_cons_self ..) g ?_ (List.mem_cons_self ..)
    have hlocated' : IsLocated (g :: front ++ behind) := by
      rw [List.cons_append, ← hfront]
      exact hlocated
    dsimp only
    rw [hfront, ← List.cons_append, frontOf_append hlocated']
    exact List.mem_cons_self ..
  obtain ⟨pre, keyword, name, colon, type, equals, us, hts, htype, hhead, hlast⟩ :=
    hdeclared
  cases pre with
  | cons first pre =>
    obtain ⟨-, rfl⟩ := List.cons.inj hts
    have hlt := offset_lt_of_mem hgs hgap htoken hmore (u := keyword) (by simp)
    rw [← Option.some.inj hhead] at hlt
    exact absurd hlt (Nat.lt_irrefl _)
  | nil =>
  obtain ⟨rfl, rfl⟩ := List.cons.inj hts
  -- up to its colon the declaration is read as it is spelt
  obtain ⟨o, hstretch, -⟩ := hlocated.exists_locate
  obtain ⟨o₁, o₂, htext⟩ := exists_locate_text d o
  rw [hs, htext] at hstretch
  have hpieces : g :: (s ++ left) = locate o (d.head.keyword ++ d.nameText) ++
      (locate o₁ d.type ++ ⟨o₂, '='⟩ :: left) := by
    rw [← List.cons_append, hstretch, List.append_assoc, List.append_assoc, List.singleton_append]
  obtain ⟨keyword', name', colon', hscans, hkeyword, hname, hcolon⟩ :=
    exists_scans_text d o (locate o₁ d.type ++ ⟨o₂, '='⟩ :: left)
  have hlexemes := lexemes_of_token (skipGap_idem hgap) htoken
  rw [hmore, hpieces, hscans.lexemes_eq] at hlexemes
  cases hlater : lexemes (locate o₁ d.type ++ ⟨o₂, '='⟩ :: left) with
  | error f =>
    rw [hlater] at hlexemes
    cases hlexemes
  | ok later =>
  rw [hlater] at hlexemes
  have htokens : keyword' :: name' :: colon' :: later = _ := Except.ok.inj hlexemes
  obtain ⟨rfl, hnames⟩ := List.cons.inj htokens
  obtain ⟨rfl, hcolons⟩ := List.cons.inj hnames
  obtain ⟨rfl, rfl⟩ := List.cons.inj hcolons
  -- behind it stands the equals sign that was found
  have hequals : equals.offset = o₂ := by
    rw [hstretch, ← List.append_assoc, List.getLast?_concat] at hlast
    exact (Option.some.inj hlast).symm
  have hbehind : IsLocated (locate o₁ d.type ++ ⟨o₂, '='⟩ :: left) := by
    rw [List.cons_append, hpieces] at hlocated
    exact hlocated.right
  obtain ⟨hpunct, hleft⟩ := lexemes_behind_equals hbehind hlater hequals
  refine ⟨_, _, type, equals, us, rfl, hkeyword, hname, hcolon, htype, hpunct,
    hleft, fun x hx => ?_⟩
  rw [hequals]
  exact hbehind.right.head_lt hx

/-- A first token that is kept, in front of tokens that are settled. -/
lemma erases_of_kept {cs' : List Char} {o o₁ : Nat}
    (hkept : Drops (IsErasable (⟨t, g.offset, broken, frontOf (g :: rest) behind⟩ :: more)) rest cs)
    (hgap' : skipGap (locate o cs') = .ok (broken, locate o₁ (g.char :: cs)))
    (ih : ∀ cs o, Drops (IsErasable more) behind cs →
      ∃ ts', lexemes (locate o cs) = .ok ts' ∧ Erases [] [] .outside more ts') :
    ∃ ts', lexemes (locate o cs') = .ok ts' ∧
      Erases [] [] .outside (⟨t, g.offset, broken, frontOf (g :: rest) behind⟩ :: more) ts' := by
  obtain ⟨front, rfl⟩ := exists_of_token htoken
  have hlocated : IsLocated (g :: front ++ behind) := hgs.of_suffix (isSuffix_of_skipGap hgap)
  obtain ⟨cs, rfl, hbehind⟩ := hkept.exists_append fun s hs =>
    not_mem_spelling hgs hgap htoken hmore rfl hs
  have hbehind' := hbehind.imp fun s hs hmem =>
    IsErasable.of_append [_] hs fun u hu x hx => by
      obtain rfl := List.mem_singleton.1 hu
      exact (hlocated.lt (List.mem_cons_self ..) (hmem x hx)).ne'
  obtain ⟨t', o', htoken', htwin⟩ := exists_token_of_drops hlocated htoken hbehind o₁
  obtain ⟨ts', hts', herases⟩ := ih cs o' hbehind'
  rw [locate] at hgap'
  have hlexemes := lexemes_of_token hgap' htoken'
  rw [hts'] at hlexemes
  exact ⟨_, hlexemes, .keep ⟨htwin, fun _ _ => rfl⟩ herases⟩

/-- A declaration at the first token that loses its type, in front of tokens that are settled. -/
lemma erases_of_dropped {cs' : List Char} {d : TypedDeclaration} {o o₁ : Nat}
    (hrest : rest = s ++ left) (hs : chars (g :: s) = d.text)
    (hok : IsErasable (⟨t, g.offset, broken, frontOf (g :: rest) behind⟩ :: more) (g :: s))
    (hdropped : Drops (IsErasable (⟨t, g.offset, broken, frontOf (g :: rest) behind⟩ :: more))
      left cs)
    (hgap' : skipGap (locate o cs') = .ok (broken, locate o₁ (d.bare ++ cs)))
    (ih : ∀ us cs o, lexemes left = .ok us → Drops (IsErasable us) left cs →
      ∃ ts', lexemes (locate o cs) = .ok ts' ∧ Erases [] [] .outside us ts') :
    ∃ ts', lexemes (locate o cs') = .ok ts' ∧
      Erases [] [] .outside (⟨t, g.offset, broken, frontOf (g :: rest) behind⟩ :: more) ts' := by
  have hts : lexemes gs = .ok (⟨t, g.offset, broken, frontOf (g :: rest) behind⟩ :: more) := by
    rw [lexemes_of_token hgap htoken, hmore]
    rfl
  obtain ⟨name, colon, type, equals, us, rfl, rfl, hname, hcolon, htype, hequals, hbehind, hlt⟩ :=
    exists_of_stretch hgs hgap htoken hmore hrest hs hok
  -- the tokens up to the equals sign stand in front of what is left
  have hdropped' := hdropped.imp fun s hs hmem =>
    IsErasable.of_append ((_ :: name :: colon :: type) ++ [equals])
      (by simpa using hs) fun u hu x hx =>
        (Nat.lt_of_le_of_lt (offset_le_of_lexemes hgs hts hu) (hlt x (hmem x hx))).ne'
  obtain ⟨ts', hts', herases⟩ := ih us cs (o₁ + Text.byteCount d.bare) hbehind hdropped'
  -- what is left of the declaration is read as its keyword, its name and the equals sign
  obtain ⟨keyword', name', equals', hscans, hkeyword', hbreak, hname', hbreak', hequals'⟩ :=
    exists_scans_bare d o₁ (locate (o₁ + Text.byteCount d.bare) cs)
  rw [← locate_append] at hscans
  cases hscans with
  | @cons _ rest' behind' _ g' _ t' _ hgap₁ htoken' hscans =>
  have hsame : locate o₁ (d.bare ++ cs) = g' :: rest' :=
    (Prod.mk.inj (Except.ok.inj ((skipGap_idem hgap').symm.trans hgap₁))).2
  rw [hsame] at hgap'
  have hlexemes := lexemes_of_token hgap' htoken'
  rw [hscans.lexemes_eq, hts'] at hlexemes
  refine ⟨_, hlexemes, .keyword ⟨⟨0, 0, ?_⟩, fun _ _ => rfl⟩ rfl
    (isName_of_mem_declarators d.keyword_mem).2
    (.typed hname hname' hbreak' hcolon htype hequals hequals' herases)⟩
  dsimp only at hkeyword' ⊢
  rw [hkeyword']
  refine .same _ fun _ _ htemplate => ?_
  cases htemplate

end First

/-- **The tokens of a text without types** are its tokens without annotations.

**Proof sketch.** Strong induction on the length of the text. The gap in front is one without
types (`Drops.skipGap`). If the token behind it is kept, so is the whole of it, because a
declaration that may be dropped begins with its keyword, and the rest is shorter
(`erases_of_kept`). If it is the keyword of a declaration that is dropped, then its tokens up to
the equals sign are annotations to be erased, and what is left of them is the keyword, the name
and the equals sign (`erases_of_dropped`). -/
theorem lexemes_drops (hgs : IsLocated gs) (hts : lexemes gs = .ok ts)
    (h : Drops (IsErasable ts) gs cs) (o : Nat) :
    ∃ ts', lexemes (locate o cs) = .ok ts' ∧ Erases [] [] .outside ts ts' := by
  induction hn : gs.length using Nat.strongRecOn generalizing gs ts cs o with
  | _ n ih =>
  subst hn
  rcases lexemes_cases hts with
    ⟨broken, hgap, rfl⟩ | ⟨broken, g, rest, t, behind, more, hgap, htoken, hmore, rfl⟩
  · -- there is nothing but comments
    have hok : EndNoComment (IsErasable []) [] := by
      rintro s (⟨front, _, _, _, _, _, _, hnil, _⟩ | ⟨-, hends⟩) -
      · exact absurd hnil (by simp)
      · exact hends
    obtain ⟨o', cs', hgap', hdrops⟩ := h.skipGap hgs hok hgap o
    obtain rfl := hdrops.eq_nil
    exact ⟨[], lexemes_of_end hgap', .behind⟩
  obtain ⟨o₁, cs₁, hgap', hdrops⟩ :=
    h.skipGap hgs (endNoComment_first hgs hgap htoken hmore) hgap o
  have hsuffix : g :: rest <:+ gs := isSuffix_of_skipGap hgap
  have hlocated := hgs.of_suffix hsuffix
  rcases hdrops.cases_cons with ⟨cs₂, rfl, hkept⟩ | ⟨d, s, left, cs₂, hleft, hs, hok, rfl, hdropped⟩
  · have hshort := length_of_token htoken
    obtain ⟨front, hfront⟩ := exists_of_token htoken
    have hbehind : IsLocated behind :=
      hlocated.of_suffix ⟨g :: front, congrArg (g :: ·) hfront.symm⟩
    exact erases_of_kept hgs hgap htoken hmore hkept hgap' fun cs o hdrops =>
      ih _ (Nat.lt_of_lt_of_le hshort hsuffix.length_le) hbehind hmore hdrops o rfl
  · have hbehind : IsLocated left := hlocated.of_suffix ⟨g :: s, congrArg (g :: ·) hleft.symm⟩
    have hshort : left.length < gs.length := by
      have := hsuffix.length_le
      rw [hleft] at this
      simp only [List.length_append, List.length_cons] at this
      omega
    exact erases_of_dropped hgs hgap htoken hmore hleft hs hok hdropped hgap'
      fun us cs o hus hdrops => ih _ hshort hbehind hus hdrops o rfl

end Tokens

end CardTable.Script
