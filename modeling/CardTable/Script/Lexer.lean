import CardTable.Script.Numeral
import CardTable.Text.White

set_option autoImplicit false

/-!
# Tokens of a module body

A body is cut into words, string, number and template literals and signs. White space, U+FEFF and
comments may stand between tokens. A template literal is cut at its substitutions: the brace that
closes one is found by counting braces outside the string and template literals in it, and what
stands in it is left to be read as an expression.

## Main definitions

* `CardTable.Script.skipGap` — the white space and comments at the front of a text.
* `CardTable.Script.stringLiteral`, `CardTable.Script.template` — literals behind their opening
  quote.
* `CardTable.Script.lexemes` — the tokens of a text.

## Main results

* `CardTable.Script.length_of_token` — a token is taken off the text.
-/

namespace CardTable.Script

open CardTable.Text (isWhite)

/-! ## Gaps between tokens -/

/-- Whether `c` ends a line. -/
def isBreak (c : Char) : Bool :=
  c == '\n' || c == '\r' || c == '\u2028' || c == '\u2029'

/-- Whether `c` may stand between tokens. -/
def isGap (c : Char) : Bool :=
  isWhite c || c == '\uFEFF'

/-- The rest of a block comment behind its opening: whether it holds a line break, and what is
behind it. -/
def blockComment? : List Glyph → Option (Bool × List Glyph)
  | [] => none
  | ⟨_, '*'⟩ :: ⟨_, '/'⟩ :: behind => some (false, behind)
  | g :: rest => (blockComment? rest).map fun (broken, behind) => (isBreak g.char || broken, behind)

/-- What is behind a block comment is no longer than the text. -/
theorem length_of_blockComment? {cs behind : List Glyph} {broken : Bool}
    (h : blockComment? cs = some (broken, behind)) : behind.length ≤ cs.length := by
  fun_induction blockComment? cs generalizing broken with
  | case1 => simp at h
  | case2 =>
    simp only [Option.some.injEq, Prod.mk.injEq] at h
    obtain ⟨_, rfl⟩ := h
    simp only [List.length_cons]
    omega
  | case3 g rest _ ih =>
    simp only [Option.map_eq_some_iff, Prod.mk.injEq, Prod.exists] at h
    obtain ⟨_, _, hrest, _, rfl⟩ := h
    exact Nat.le_succ_of_le (ih hrest)

/-- The white space and comments at the front of a text: whether they hold a line break, and what
is behind them. -/
def skipGap (cs : List Glyph) : Except Fault (Bool × List Glyph) :=
  match cs with
  | [] => .ok (false, [])
  | g :: rest =>
    if isGap g.char then
      (skipGap rest).map fun (broken, behind) => (isBreak g.char || broken, behind)
    else if g.char = '/' then
      match rest with
      | ⟨_, '/'⟩ :: rest => skipGap (rest.dropWhile fun g => !isBreak g.char)
      | ⟨_, '*'⟩ :: rest =>
        match _h : blockComment? rest with
        | none => .error ⟨g.offset, .unterminatedComment⟩
        | some (broken, behind) =>
          (skipGap behind).map fun (later, behind) => (broken || later, behind)
      | _ => .ok (false, cs)
    else .ok (false, cs)
termination_by cs.length
decreasing_by
  · exact Nat.lt_succ_self _
  · have := (List.dropWhile_sublist (fun g : Glyph => !isBreak g.char) (l := rest)).length_le
    simp only [List.length_cons]
    omega
  · have := length_of_blockComment? _h
    simp only [List.length_cons]
    omega

/-- There is nothing to skip in front of what is neither white space nor a comment. -/
theorem skipGap_of_not_isGap {g : Glyph} (rest : List Glyph) (hgap : isGap g.char = false)
    (hslash : g.char ≠ '/') : skipGap (g :: rest) = .ok (false, g :: rest) := by
  unfold skipGap
  simp only [hgap, Bool.false_eq_true, if_false, if_neg hslash]

/-- White space is skipped, and what is behind it. -/
theorem skipGap_of_isGap {g : Glyph} (rest : List Glyph) (hgap : isGap g.char = true) :
    skipGap (g :: rest) =
      (skipGap rest).map fun (broken, behind) => (isBreak g.char || broken, behind) := by
  rw [skipGap.eq_def]
  simp only [hgap, if_true]

/-- A mapped answer comes from an answer that leaves the same text behind. -/
theorem exists_of_map_eq_ok {f : Bool → Bool} {r : Except Fault (Bool × List Glyph)}
    {broken : Bool} {behind : List Glyph}
    (h : r.map (fun (later, behind) => (f later, behind)) = .ok (broken, behind)) :
    ∃ later, r = .ok (later, behind) := by
  rcases r with e | ⟨later, left⟩
  · simp [Except.map] at h
  · simp only [Except.map, Except.ok.injEq, Prod.mk.injEq] at h
    exact ⟨later, by rw [h.2]⟩

/-- What is behind a gap is no longer than the text. -/
theorem length_of_skipGap {cs behind : List Glyph} {broken : Bool}
    (h : skipGap cs = .ok (broken, behind)) : behind.length ≤ cs.length := by
  fun_induction skipGap cs generalizing broken with
  | case1 =>
    simp only [Except.ok.injEq, Prod.mk.injEq] at h
    simp [← h.2]
  | case2 g rest _ ih =>
    obtain ⟨_, hrest⟩ := exists_of_map_eq_ok h
    exact Nat.le_succ_of_le (ih hrest)
  | case3 g _ _ _ rest ih =>
    have hdrop := (List.dropWhile_sublist (fun g : Glyph => !isBreak g.char) (l := rest)).length_le
    have := ih h
    simp only [List.length_cons]
    omega
  | case4 => simp at h
  | case5 g _ _ _ rest _ left hcomment ih =>
    obtain ⟨_, hrest⟩ := exists_of_map_eq_ok h
    have := length_of_blockComment? hcomment
    have := ih hrest
    simp only [List.length_cons]
    omega
  | case6 =>
    simp only [Except.ok.injEq, Prod.mk.injEq] at h
    simp [← h.2]
  | case7 =>
    simp only [Except.ok.injEq, Prod.mk.injEq] at h
    simp [← h.2]

/-! ## String and template literals -/

/-- The body of a string literal up to its closing quote, and what is behind it; `none` if the line
or the text ends first. A backslash takes the character behind it along, and a carriage return
behind a backslash takes a line feed along. -/
def stringBody? (quote : Char) : List Glyph → Option (List Char × List Glyph)
  | [] => none
  | g :: rest =>
    if g.char = '\\' then
      match rest with
      | [] => none
      | ⟨_, '\r'⟩ :: ⟨_, '\n'⟩ :: behind =>
        (stringBody? quote behind).map fun (body, behind) =>
          ('\\' :: '\r' :: '\n' :: body, behind)
      | e :: behind =>
        (stringBody? quote behind).map fun (body, behind) => ('\\' :: e.char :: body, behind)
    else if g.char = quote then some ([], rest)
    else if g.char = '\n' ∨ g.char = '\r' then none
    else (stringBody? quote rest).map fun (body, behind) => (g.char :: body, behind)

/-- The closing quote is taken off the text. -/
theorem length_of_stringBody? {quote : Char} {cs behind : List Glyph} {body : List Char}
    (h : stringBody? quote cs = some (body, behind)) : behind.length < cs.length := by
  fun_induction stringBody? quote cs generalizing body with
  | case1 => simp at h
  | case2 => simp at h
  | case3 _ _ _ _ _ ih =>
    simp only [Option.map_eq_some_iff, Prod.mk.injEq, Prod.exists] at h
    obtain ⟨_, _, hrest, _, rfl⟩ := h
    have := ih hrest
    simp only [List.length_cons]
    omega
  | case4 _ _ _ _ _ ih =>
    simp only [Option.map_eq_some_iff, Prod.mk.injEq, Prod.exists] at h
    obtain ⟨_, _, hrest, _, rfl⟩ := h
    have := ih hrest
    simp only [List.length_cons]
    omega
  | case5 =>
    simp only [Option.some.injEq, Prod.mk.injEq] at h
    obtain ⟨_, rfl⟩ := h
    simp
  | case6 => simp at h
  | case7 _ _ _ _ _ ih =>
    simp only [Option.map_eq_some_iff, Prod.mk.injEq, Prod.exists] at h
    obtain ⟨_, _, hrest, _, rfl⟩ := h
    exact Nat.lt_succ_of_lt (ih hrest)

/-- Something found at the front of the text `cs`, and what is behind it. -/
structure Found (α : Type) (cs : List Glyph) where
  /-- What was found. -/
  value : α
  /-- What is behind it. -/
  behind : List Glyph
  /-- Something was taken off the text. -/
  shorter : behind.length < cs.length

namespace Found

variable {α β : Type} {cs ds : List Glyph}

/-- The same find with its value changed. -/
def map (f : α → β) (found : Found α cs) : Found β cs :=
  ⟨f found.value, found.behind, found.shorter⟩

/-- A find at the front of the end `ds` of a text, as one in that text. -/
def within (h : ds.length ≤ cs.length) (found : Found α ds) : Found α cs :=
  ⟨found.value, found.behind, Nat.lt_of_lt_of_le found.shorter h⟩

end Found

/-- The string literal whose opening quote is `g`, the text standing behind it. -/
def stringLiteral (g : Glyph) (cs : List Glyph) : Except Fault (Found String cs) :=
  match h : stringBody? g.char cs with
  | none => .error ⟨g.offset, .unterminatedString⟩
  | some (body, behind) =>
    match unescape body with
    | .error e => .error ⟨g.offset, .escape e⟩
    | .ok text => .ok ⟨String.ofList text, behind, length_of_stringBody? h⟩

/-- A text in which a carriage return and line feed together are one line feed. -/
def joinLineEnds : List Char → List Char
  | [] => []
  | '\r' :: '\n' :: rest => '\n' :: joinLineEnds rest
  | c :: rest => c :: joinLineEnds rest

/-- The text of a chunk of the template that begins at `start`. -/
def cookChunk (start : Nat) (chunk : List Char) : Except Fault String :=
  match unescape (joinLineEnds chunk) with
  | .error e => .error ⟨start, .escape e⟩
  | .ok text => .ok (String.ofList text)

/-- A text without its first character is no longer. -/
theorem length_tail_le (cs : List Glyph) : cs.tail.length ≤ cs.length := by
  simp

mutual

/-- The rest of the template that begins at `start`, from inside a chunk of which `read` has been
read, in reverse. -/
def template (start : Nat) (read : List Char) (cs : List Glyph) :
    Except Fault (Found (String × List (Substitution × String)) cs) :=
  match cs with
  | [] => .error ⟨start, .unterminatedTemplate⟩
  | g :: rest =>
    if g.char = '\\' then
      match rest with
      | [] => .error ⟨start, .unterminatedTemplate⟩
      | e :: rest =>
        (template start (e.char :: '\\' :: read) rest).map (·.within (Nat.le_add_right _ 2))
    else if g.char = '\x60' then
      (cookChunk start read.reverse).map fun head => ⟨(head, []), rest, Nat.lt_succ_self _⟩
    else if g.char = '$' ∧ rest.head?.map Glyph.char = some '\x7b' then
      match cookChunk start read.reverse with
      | .error f => .error f
      | .ok head =>
        match substitution start 0 rest.tail with
        | .error f => .error f
        | .ok closed =>
          have hbehind := Nat.lt_of_lt_of_le closed.shorter (length_tail_le rest)
          let source := before closed.value rest.tail
          (template start [] closed.behind).map fun found =>
            (found.map fun (chunk, parts) =>
              (head, (⟨source, closed.value⟩, chunk) :: parts)).within
              (Nat.le_succ_of_le (Nat.le_of_lt hbehind))
    else (template start (g.char :: read) rest).map (·.within (Nat.le_succ _))
termination_by cs.length

/-- The offset of the brace that closes a substitution of the template that begins at `start`, from
inside `depth` further braces. -/
def substitution (start depth : Nat) (cs : List Glyph) : Except Fault (Found Nat cs) :=
  match cs with
  | [] => .error ⟨start, .unterminatedSubstitution⟩
  | g :: rest =>
    if g.char = '\x7d' then
      match depth with
      | 0 => .ok ⟨g.offset, rest, Nat.lt_succ_self _⟩
      | depth + 1 => (substitution start depth rest).map (·.within (Nat.le_succ _))
    else if g.char = '\'' ∨ g.char = '"' then
      match stringLiteral g rest with
      | .error f => .error f
      | .ok literal =>
        have hbehind := literal.shorter
        (substitution start depth literal.behind).map
          (·.within (Nat.le_succ_of_le (Nat.le_of_lt hbehind)))
    else if g.char = '\x60' then
      match template g.offset [] rest with
      | .error f => .error f
      | .ok literal =>
        have hbehind := literal.shorter
        (substitution start depth literal.behind).map
          (·.within (Nat.le_succ_of_le (Nat.le_of_lt hbehind)))
    else
      let depth := if g.char = '\x7b' then depth + 1 else depth
      (substitution start depth rest).map (·.within (Nat.le_succ _))
termination_by cs.length

end

/-! ## Tokens -/

/-- The token whose first character is `g`, the text `rest` standing behind it. -/
def token (g : Glyph) (rest : List Glyph) : Except Fault (Token × List Glyph) :=
  if startsWord g.char then
    let word := g :: rest.takeWhile fun g => continuesWord g.char
    .ok (.word (String.ofList (chars word)), rest.dropWhile fun g => continuesWord g.char)
  else if g.char.isDigit ∨ g.char = '.' ∧ rest.head?.any (fun g => g.char.isDigit) then
    match numeral (g :: rest) with
    | .error problem => .error ⟨g.offset, problem⟩
    | .ok (x, behind) => .ok (.number x, behind)
  else if g.char = '\'' ∨ g.char = '"' then
    (stringLiteral g rest).map fun found => (.text found.value, found.behind)
  else if g.char = '\x60' then
    (template g.offset [] rest).map fun found =>
      (.template found.value.1 found.value.2, found.behind)
  else
    match g.char, rest with
    | '.', ⟨_, '.'⟩ :: ⟨_, '.'⟩ :: behind => .ok (.sign .spread, behind)
    | '?', ⟨_, '.'⟩ :: behind =>
      if behind.head?.any (fun g => g.char.isDigit) then .ok (.sign (.punct '?'), rest)
      else .ok (.sign .optionalDot, behind)
    | c, _ => .ok (.sign (.punct c), rest)

/-- A token is taken off the text. -/
theorem length_of_token {g : Glyph} {rest behind : List Glyph} {t : Token}
    (h : token g rest = .ok (t, behind)) : behind.length < (g :: rest).length := by
  unfold token at h
  split at h
  · simp only [Except.ok.injEq, Prod.mk.injEq] at h
    obtain ⟨_, rfl⟩ := h
    exact Nat.lt_succ_of_le (List.dropWhile_sublist _).length_le
  split at h
  · split at h
    · simp at h
    · next hnumeral =>
      simp only [Except.ok.injEq, Prod.mk.injEq] at h
      obtain ⟨_, rfl⟩ := h
      exact length_of_numeral hnumeral
  split at h
  · rcases hs : stringLiteral g rest with f | found
    · simp [hs, Except.map] at h
    · simp only [hs, Except.map, Except.ok.injEq, Prod.mk.injEq] at h
      exact h.2 ▸ Nat.lt_succ_of_lt found.shorter
  split at h
  · rcases ht : template g.offset [] rest with f | found
    · simp [ht, Except.map] at h
    · simp only [ht, Except.map, Except.ok.injEq, Prod.mk.injEq] at h
      exact h.2 ▸ Nat.lt_succ_of_lt found.shorter
  split at h
  · simp only [Except.ok.injEq, Prod.mk.injEq] at h
    obtain ⟨_, rfl⟩ := h
    simp only [List.length_cons]
    omega
  · split at h <;>
    · simp only [Except.ok.injEq, Prod.mk.injEq] at h
      obtain ⟨_, rfl⟩ := h
      simp only [List.length_cons]
      omega
  · simp only [Except.ok.injEq, Prod.mk.injEq] at h
    obtain ⟨_, rfl⟩ := h
    simp

/-- The part of a located text in front of `behind`, a text that it ends in. -/
def frontOf (cs behind : List Glyph) : List Glyph :=
  match behind with
  | [] => cs
  | g :: _ => before g.offset cs

/-- The tokens of a located text. -/
def lexemes (cs : List Glyph) : Except Fault (List Lexeme) :=
  match _h : skipGap cs with
  | .error f => .error f
  | .ok (_, []) => .ok []
  | .ok (broken, g :: rest) =>
    match _h' : token g rest with
    | .error f => .error f
    | .ok (t, behind) =>
      (lexemes behind).map fun more =>
        ⟨t, g.offset, broken, frontOf (g :: rest) behind⟩ :: more
termination_by cs.length
decreasing_by
  have := length_of_skipGap _h
  have := length_of_token _h'
  omega

/-- Behind the last token there is none. -/
theorem lexemes_of_end {cs : List Glyph} {broken : Bool} (hgap : skipGap cs = .ok (broken, [])) :
    lexemes cs = .ok [] := by
  rw [lexemes]
  split
  · next h => exact absurd (hgap.symm.trans h) nofun
  · rfl
  · next h => exact absurd (hgap.symm.trans h) nofun

/-- The first token, and those behind it. -/
theorem lexemes_of_token {cs rest behind : List Glyph} {g : Glyph} {broken : Bool} {t : Token}
    (hgap : skipGap cs = .ok (broken, g :: rest)) (htoken : token g rest = .ok (t, behind)) :
    lexemes cs = (lexemes behind).map fun more =>
      ⟨t, g.offset, broken, frontOf (g :: rest) behind⟩ :: more := by
  rw [lexemes]
  split
  · next h => exact absurd (hgap.symm.trans h) nofun
  · next h => exact absurd (hgap.symm.trans h) nofun
  · next h =>
    obtain ⟨⟩ := Except.ok.inj (hgap.symm.trans h)
    split
    · next h' => exact absurd (htoken.symm.trans h') nofun
    · next h' =>
      obtain ⟨⟩ := Except.ok.inj (htoken.symm.trans h')
      rfl

end CardTable.Script
