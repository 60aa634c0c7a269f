import CardTable.Table.Statement
import Mathlib.Tactic.Lemma

set_option autoImplicit false

/-!
# The tokens of statements

The names in a statement come from the fields of the cards and may be any text. The store reads a
statement as a sequence of tokens, and a name between double quotes ends at the first double quote
that is not followed by another one; two of them stand for one. This file reads texts by this rule,
as far as the statements for the card table need it, and refuses all others.

A quoted name is one token, with quotes, commas, parentheses or whole statements in it just as
without them. Only a NUL character makes a difference, because the text of a statement ends there:
then the name has no end, and the text is refused.

## Main definitions

* `CardTable.Statement.Token`, `CardTable.Statement.run` — the tokens of a text.
* `CardTable.Statement.Spells` — the texts that are read as given tokens, whatever stands behind
  them.

## Main results

* `CardTable.Statement.spells_quoteName` — a quoted name is one token.
* `CardTable.Statement.run_quoteName_eq_none` — unless there is a NUL character in it.
* `CardTable.Statement.spells_joinComma` — the tokens of a list.
-/

namespace CardTable.Statement

/-! ## Tokens -/

/-- A token of a statement. -/
inductive Token where
  /-- A word. -/
  | word (text : String)
  /-- A name between double quotes. -/
  | name (text : String)
  /-- A parenthesis, a comma or the place of a value. -/
  | sign (c : Char)
deriving DecidableEq

/-- Where the reader of a statement stands, with what was read of the token there. -/
inductive Place where
  /-- Between two tokens. -/
  | between
  /-- In a word. -/
  | word (text : List Char)
  /-- In a quoted name. -/
  | name (text : List Char)
  /-- Behind a quote in a quoted name: the name ends here unless another quote follows. -/
  | quote (text : List Char)
deriving DecidableEq

/-- Whether a word can begin with `c`. -/
def isWordStart (c : Char) : Bool :=
  c.isAlpha || c == '_' || decide (0x80 ≤ c.toNat)

/-- Whether a word goes on with `c`. -/
def isWordPart (c : Char) : Bool :=
  isWordStart c || c.isDigit || c == '$'

/-- Whether a text is a word. -/
def isWord : List Char → Bool
  | [] => false
  | c :: text => isWordStart c && text.all isWordPart

/-- The signs. -/
def signs : List Char :=
  ['(', ')', ',', '?']

/-- The blanks. -/
def blanks : List Char :=
  [' ', '\t', '\n', '\x0c', '\r']

namespace Place

/-- The tokens that are complete where the text ends; a name without an end is refused. -/
def leave : Place → Option (List Token)
  | .between => some []
  | .word text => some [.word (String.ofList text)]
  | .quote text => some [.name (String.ofList text)]
  | .name _ => none

/-- Reads a character between two tokens. -/
def enter (c : Char) : Option (List Token × Place) :=
  if isWordStart c then some ([], .word [c])
  else if c = '"' then some ([], .name [])
  else if c ∈ signs then some ([.sign c], .between)
  else if c ∈ blanks then some ([], .between)
  else none

/-- Reads a character behind a token. -/
def enterBehind (token : Token) (c : Char) : Option (List Token × Place) :=
  (enter c).map fun (tokens, place) => (token :: tokens, place)

/-- Reads a character: the tokens that are complete by it, and where it leads. -/
def step : Place → Char → Option (List Token × Place)
  | .between, c => enter c
  | .word text, c =>
    if isWordPart c then some ([], .word (text ++ [c]))
    else enterBehind (.word (String.ofList text)) c
  | .name text, c => some ([], if c = '"' then .quote text else .name (text ++ [c]))
  | .quote text, c =>
    if c = '"' then some ([], .name (text ++ ['"']))
    else enterBehind (.name (String.ofList text)) c

end Place

/-- The tokens of a text, read from the given place on. The text ends at a NUL character. -/
def run : Place → List Char → Option (List Token)
  | place, [] => place.leave
  | place, c :: cs =>
    if c = '\x00' then place.leave
    else (place.step c).bind fun (tokens, next) => (run next cs).map (tokens ++ ·)

/-! ## Texts and their tokens -/

/-- Whether a text does not go on with a word or a name in front of it. -/
def Apart (text : List Char) : Prop :=
  ∀ c ∈ text.head?, c ≠ '"' ∧ isWordPart c = false

/-- The text `text` is read as `tokens`, whatever is apart from it behind it. -/
def Spells (text : List Char) (tokens : List Token) : Prop :=
  ∀ rest, Apart rest →
    run .between (text ++ rest) = (run .between rest).map (tokens ++ ·)

section Texts

variable {text text' : List Char} {tokens tokens' : List Token}

/-- A character that is neither a quote nor part of a word stands apart. -/
lemma apart_cons {c : Char} (hquote : c ≠ '"') (hword : isWordPart c = false)
    (rest : List Char) : Apart (c :: rest) := by
  rintro _ ⟨⟩
  exact ⟨hquote, hword⟩

/-- A character that completes the given tokens. -/
lemma run_cons {place next : Place} {c : Char} {tokens : List Token} (hend : c ≠ '\x00')
    (hstep : place.step c = some (tokens, next)) (rest : List Char) :
    run place (c :: rest) = (run next rest).map (tokens ++ ·) := by
  rw [run, if_neg hend, hstep, Option.bind_some]

/-- A character that completes no token. -/
lemma run_cons_nil {place next : Place} {c : Char} (hend : c ≠ '\x00')
    (hstep : place.step c = some ([], next)) (rest : List Char) :
    run place (c :: rest) = run next rest :=
  (run_cons hend hstep rest).trans Option.map_id'

/-- A blank between two tokens is skipped. -/
lemma run_blank (rest : List Char) : run .between (' ' :: rest) = run .between rest :=
  run_cons_nil (by decide) (by decide) rest

/-- A sign is a token. -/
lemma run_sign {c : Char} (hc : c ∈ signs) (rest : List Char) :
    run .between (c :: rest) = (run .between rest).map (.sign c :: ·) := by
  have hsigns : ∀ c ∈ signs, c ≠ '\x00' ∧ Place.between.step c = some ([.sign c], .between) := by
    decide
  exact run_cons (hsigns c hc).1 (hsigns c hc).2 rest

/-- A token ends in front of a text that is apart: what is read there is read behind the token. -/
lemma run_of_apart {place : Place} {token : Token} {rest : List Char} (h : Apart rest)
    (hleave : place.leave = some [token])
    (hstep : ∀ c, c ≠ '"' → isWordPart c = false → place.step c = Place.enterBehind token c) :
    run place rest = (run .between rest).map (token :: ·) := by
  cases rest with
  | nil => exact hleave
  | cons c rest =>
    obtain ⟨hquote, hword⟩ := h c rfl
    rw [run, run, hstep c hquote hword, hleave, Place.step, Place.enterBehind]
    split
    · rfl
    · cases Place.enter c with
      | none => rfl
      | some entered => simp [Function.comp_def]

/-- A word ends in front of a text that is apart. -/
lemma run_word_of_apart {rest : List Char} (h : Apart rest) (word : List Char) :
    run (.word word) rest = (run .between rest).map (.word (String.ofList word) :: ·) :=
  run_of_apart h rfl fun c _ hword => by simp [Place.step, hword]

/-- A name ends at a quote in front of a text that is apart. -/
lemma run_quote_of_apart {rest : List Char} (h : Apart rest) (name : List Char) :
    run (.quote name) rest = (run .between rest).map (.name (String.ofList name) :: ·) :=
  run_of_apart h rfl fun c hquote _ => by simp [Place.step, hquote]

/-- A word goes on with the characters of words. -/
lemma run_word_append {text : List Char} (htext : ∀ c ∈ text, isWordPart c = true)
    (word rest : List Char) :
    run (.word word) (text ++ rest) = run (.word (word ++ text)) rest := by
  induction text generalizing word with
  | nil => rw [List.nil_append, List.append_nil]
  | cons c text ih =>
    obtain ⟨hc, htext⟩ := List.forall_mem_cons.1 htext
    have hend : c ≠ '\x00' := by
      rintro rfl
      exact absurd hc (by decide)
    have hstep : (Place.word word).step c = some ([], .word (word ++ [c])) := if_pos hc
    rw [List.cons_append, run_cons_nil hend hstep, ih htext, List.append_assoc]
    rfl

/-- In a quoted name, a quote that is written twice is read as one. -/
lemma run_name_doubleQuotes_cons {c : Char} (hc : c ≠ '\x00') (name inside rest : List Char) :
    run (.name name) (doubleQuotes (c :: inside) ++ rest) =
      run (.name (name ++ [c])) (doubleQuotes inside ++ rest) := by
  rw [doubleQuotes, List.flatMap_cons, ← doubleQuotes]
  split
  · next hquote =>
    subst hquote
    exact (run_cons_nil hc rfl _).trans (run_cons_nil hc rfl _)
  · next hquote =>
    have hstep : (Place.name name).step c = some ([], .name (name ++ [c])) := by
      rw [Place.step, if_neg hquote]
    exact run_cons_nil hc hstep _

/-- The inside of a quoted name is read as it was. -/
lemma run_name_doubleQuotes {inside : List Char} (h : '\x00' ∉ inside) (name rest : List Char) :
    run (.name name) (doubleQuotes inside ++ rest) = run (.name (name ++ inside)) rest := by
  induction inside generalizing name with
  | nil => rw [List.append_nil]; rfl
  | cons c inside ih =>
    obtain ⟨hc, hinside⟩ := not_or.1 (mt List.mem_cons.2 h)
    rw [run_name_doubleQuotes_cons (Ne.symm hc), ih hinside, List.append_assoc]
    rfl

/-- A NUL character inside of a quoted name leaves it without an end. -/
lemma run_name_doubleQuotes_eq_none {inside : List Char} (h : '\x00' ∈ inside)
    (name rest : List Char) : run (.name name) (doubleQuotes inside ++ rest) = none := by
  induction inside generalizing name with
  | nil => cases h
  | cons c inside ih =>
    by_cases hc : c = '\x00'
    · subst hc
      rfl
    · rw [run_name_doubleQuotes_cons hc]
      exact ih ((List.mem_cons.1 h).resolve_left (Ne.symm hc)) _

/-! ## What a text spells -/

/-- **A quoted name is one token**, whatever it spells. -/
theorem spells_quoteName {name : String} (h : '\x00' ∉ name.toList) :
    Spells (quoteName name) [.name name] := by
  intro rest hrest
  have hopen : Place.between.step '"' = some ([], .name []) := by decide
  rw [quoteName, List.cons_append, run_cons_nil (by decide) hopen, List.append_assoc,
    run_name_doubleQuotes h, List.nil_append]
  have hclose : (Place.name name.toList).step '"' = some ([], .quote name.toList) := rfl
  rw [List.singleton_append, run_cons_nil (by decide) hclose, run_quote_of_apart hrest,
    String.ofList_toList]
  rfl

/-- A quoted name with a NUL character has no end. -/
theorem run_quoteName_eq_none {name : String} (h : '\x00' ∈ name.toList) (rest : List Char) :
    run .between (quoteName name ++ rest) = none := by
  have hopen : Place.between.step '"' = some ([], .name []) := by decide
  rw [quoteName, List.cons_append, run_cons_nil (by decide) hopen, List.append_assoc]
  exact run_name_doubleQuotes_eq_none h [] _

/-- A word is one token. -/
lemma spells_word {word : String} (h : isWord word.toList = true) :
    Spells word.toList [.word word] := by
  intro rest hrest
  obtain ⟨c, text, hword⟩ : ∃ c text, word.toList = c :: text :=
    List.exists_cons_of_ne_nil fun hnil => by simp [hnil, isWord] at h
  rw [hword] at h
  obtain ⟨hc, htext⟩ := Bool.and_eq_true_iff.1 h
  have hend : c ≠ '\x00' := by
    rintro rfl
    exact absurd hc (by decide)
  have hstep : Place.between.step c = some ([], .word [c]) := by
    rw [Place.step, Place.enter, if_pos hc]
  rw [hword, List.cons_append, run_cons_nil hend hstep, run_word_append (List.all_eq_true.1 htext),
    run_word_of_apart hrest, List.singleton_append, ← hword, String.ofList_toList]
  rfl

/-- No characters spell no tokens. -/
lemma spells_nil : Spells [] [] := fun _ _ => Option.map_id'.symm

/-- A text behind another one that it is apart from. -/
lemma Spells.append (h : Spells text tokens) (h' : Spells text' tokens')
    (hapart : ∀ rest, Apart rest → Apart (text' ++ rest)) :
    Spells (text ++ text') (tokens ++ tokens') := by
  intro rest hrest
  rw [List.append_assoc, h _ (hapart rest hrest), h' rest hrest, Option.map_map]
  exact congrArg (Option.map · _) (funext fun _ => (List.append_assoc ..).symm)

/-- A blank in front of a text. -/
lemma Spells.blank (h : Spells text tokens) : Spells (' ' :: text) tokens := by
  intro rest hrest
  rw [List.cons_append, run_blank, h rest hrest]

/-- A sign in front of a text. -/
lemma Spells.sign {c : Char} (h : Spells text tokens) (hc : c ∈ signs) :
    Spells (c :: text) (.sign c :: tokens) := by
  intro rest hrest
  rw [List.cons_append, run_sign hc, h rest hrest, Option.map_map]
  rfl

/-- A text behind a blank. -/
lemma Spells.append_blank (h : Spells text tokens) (h' : Spells text' tokens') :
    Spells (text ++ ' ' :: text') (tokens ++ tokens') :=
  h.append h'.blank fun _ _ => apart_cons (by decide) (by decide) _

/-- A text behind a comma and a blank. -/
lemma Spells.append_comma (h : Spells text tokens) (h' : Spells text' tokens') :
    Spells (text ++ ',' :: ' ' :: text') (tokens ++ .sign ',' :: tokens') :=
  h.append (h'.blank.sign (by decide)) fun _ _ => apart_cons (by decide) (by decide) _

section Lists

variable {α : Type} {spell : α → List Char} {read : α → List Token} {l : List α}

/-- The first of several things is followed by a comma and a blank. -/
lemma joinComma_map_cons_cons (a b : α) (l : List α) :
    joinComma ((a :: b :: l).map spell) = spell a ++ ',' :: ' ' :: joinComma ((b :: l).map spell) :=
  rfl

/-- A list of items, with commas between them. -/
theorem spells_joinComma (h : ∀ a ∈ l, Spells (spell a) (read a)) :
    Spells (joinComma (l.map spell)) ([.sign ','].intercalate (l.map read)) := by
  induction l with
  | nil => exact spells_nil
  | cons a l ih =>
    obtain ⟨ha, hl⟩ := List.forall_mem_cons.1 h
    cases l with
    | nil => simpa [joinComma] using ha
    | cons b l =>
      have hread : [Token.sign ','].intercalate ((a :: b :: l).map read) =
          read a ++ .sign ',' :: [Token.sign ','].intercalate ((b :: l).map read) := by
        simp [List.intercalate_cons_cons]
      rw [joinComma_map_cons_cons, hread]
      exact ha.append_comma (ih hl)

/-- An item that cannot be read makes the whole list unreadable. -/
lemma run_joinComma_eq_none {P : α → Prop} (hread : ∀ a, P a → Spells (spell a) (read a))
    (hnone : ∀ a, ¬ P a → ∀ rest, run .between (spell a ++ rest) = none) (h : ¬ ∀ a ∈ l, P a)
    (rest : List Char) : run .between (joinComma (l.map spell) ++ rest) = none := by
  induction l with
  | nil => exact absurd nofun h
  | cons a l ih =>
    by_cases ha : P a
    · have hl : ¬ ∀ b ∈ l, P b := fun hl => h (List.forall_mem_cons.2 ⟨ha, hl⟩)
      cases l with
      | nil => exact absurd nofun hl
      | cons b l =>
        have hcomma : Apart (',' :: ' ' :: joinComma ((b :: l).map spell) ++ rest) :=
          apart_cons (by decide) (by decide) _
        rw [joinComma_map_cons_cons, List.append_assoc, hread a ha _ hcomma, List.cons_append,
          List.cons_append, run_sign (by decide), run_blank, ih hl]
        rfl
    · cases l with
      | nil => exact hnone a ha rest
      | cons b l =>
        rw [joinComma_map_cons_cons, List.append_assoc]
        exact hnone a ha _

end Lists

end Texts

end CardTable.Statement
