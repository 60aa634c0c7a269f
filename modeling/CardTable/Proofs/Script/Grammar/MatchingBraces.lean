import CardTable.Proofs.Script.Lexer.ClosingBraces
import CardTable.Proofs.Script.Grammar.Erasure

set_option autoImplicit false

/-!
# Matching braces

Every brace that an expression opens is closed in it again, since object literals are the only parts
of an expression that begin with one. Types are not read but skipped, and of them it has to be asked
for.

## Main definitions

* `CardTable.Script.Reader.Braces` — how many braces are open in front of tokens and behind them.
* `CardTable.Script.Reader.TypesMatch` — the braces match in every type that is skipped.

## Main results

* `CardTable.Script.Reader.Reads.braces` — the braces of an expression match.
-/

namespace CardTable.Script

namespace Reader

/-! ## Braces in front of tokens and behind them -/

/-- With `depth` braces open in front of the tokens `ts`, there are `depth'` open where `us`
begins. -/
def Braces (depth : Nat) (ts : List Lexeme) (depth' : Nat) (us : List Lexeme) : Prop :=
  ∃ front, ts = front ++ us ∧ openBehindAll depth front = some depth'

section Braces

variable {depth mid depth' : Nat} {ts us vs : List Lexeme} {t : Lexeme}

namespace Braces

/-- No tokens leave the depth as it is. -/
lemma refl (depth : Nat) (ts : List Lexeme) : Braces depth ts depth ts :=
  ⟨[], rfl, rfl⟩

/-- Tokens in two parts lead from the first depth to the last one. -/
lemma trans (h : Braces depth ts mid us) (h' : Braces mid us depth' vs) :
    Braces depth ts depth' vs := by
  obtain ⟨front, rfl, hfront⟩ := h
  obtain ⟨middle, rfl, hmiddle⟩ := h'
  refine ⟨front ++ middle, (List.append_assoc ..).symm, ?_⟩
  rw [openBehindAll, List.foldlM_append]
  exact Option.bind_eq_some_iff.2 ⟨mid, hfront, hmiddle⟩

/-- One more token in front. -/
lemma cons (ht : openBehind depth t.token = some mid) (h : Braces mid ts depth' us) :
    Braces depth (t :: ts) depth' us := by
  obtain ⟨front, rfl, hfront⟩ := h
  exact ⟨t :: front, rfl, Option.bind_eq_some_iff.2 ⟨mid, ht, hfront⟩⟩

/-- A token that is no brace. -/
lemma skip (ht : ∀ c ∈ ['\x7b', '\x7d'], ¬ IsPunct c t) (h : Braces depth ts depth' us) :
    Braces depth (t :: ts) depth' us :=
  .cons (openBehind_of_ne (ht '\x7b' (by decide)) (ht '\x7d' (by decide))) h

/-- A sign that is no brace. -/
lemma sign {c : Char} (ht : IsPunct c t) (hc : c ∉ ['\x7b', '\x7d'])
    (h : Braces depth ts depth' us) : Braces depth (t :: ts) depth' us := by
  refine .skip (fun d hd hd' => ?_) h
  obtain rfl : c = d := by simpa using ht.symm.trans hd'
  exact hc hd

/-- A token that is no sign of one character. -/
lemma other {u : Token} (ht : t.token = u) (hu : ∀ c, u ≠ .sign (.punct c))
    (h : Braces depth ts depth' us) : Braces depth (t :: ts) depth' us :=
  .skip (fun c _ hc => hu c (ht.symm.trans hc)) h

/-- A word. -/
lemma word {w : String} (ht : t.token = .word w) (h : Braces depth ts depth' us) :
    Braces depth (t :: ts) depth' us :=
  .other ht (by simp) h

/-- A brace that is opened. -/
lemma opened (ht : IsPunct '\x7b' t) (h : Braces (depth + 1) ts depth' us) :
    Braces depth (t :: ts) depth' us :=
  .cons (by rw [ht]; rfl) h

/-- A brace that is closed. -/
lemma closed (ht : IsPunct '\x7d' t) (h : Braces depth ts depth' us) :
    Braces (depth + 1) (t :: ts) depth' us :=
  .cons (by rw [ht]; rfl) h

/-- What is behind the tokens is an end of them all. -/
lemma isSuffix (h : Braces depth ts depth' us) : us <:+ ts := by
  obtain ⟨front, rfl, -⟩ := h
  exact List.suffix_append ..

end Braces

/-! ## Types that are skipped -/

/-- Behind every word that begins a cast, the braces match in the type that is skipped. -/
def TypesMatch (ts : List Lexeme) : Prop :=
  ∀ t rest, t :: rest <:+ ts → startsCast t →
    ∀ depth, Braces depth rest depth (skipType (fun _ => false) 0 false rest)

/-- Types that match do so behind any of the tokens. -/
lemma TypesMatch.of_suffix (h : TypesMatch ts) (hsuffix : us <:+ ts) : TypesMatch us :=
  fun t rest hrest => h t rest (hrest.trans hsuffix)

/-- Types that match do so behind the first token. -/
lemma TypesMatch.tail (h : TypesMatch (t :: ts)) : TypesMatch ts :=
  h.of_suffix (List.suffix_cons ..)

/-- Without casts no type is skipped. -/
lemma typesMatch_of_not_startsCast (h : ∀ t ∈ ts, ¬ startsCast t) : TypesMatch ts :=
  fun t _ hsuffix hcast => absurd hcast (h t (hsuffix.mem (List.mem_cons_self ..)))

/-- The braces of casts match. -/
lemma TypesMatch.skipCasts (h : TypesMatch ts) (depth : Nat) :
    Braces depth ts depth (skipCasts ts) := by
  cases ts with
  | nil =>
    rw [skipCasts.eq_def]
    exact .refl depth []
  | cons t rest =>
    by_cases hcast : startsCast t
    · rw [skipCasts_of_startsCast hcast]
      have hword : ∃ w, t.token = .word w := hcast.imp fun _ hw => hw.1
      obtain ⟨w, hw⟩ := hword
      exact .word hw (h t rest List.suffix_rfl hcast depth)
    · rw [skipCasts_of_not_startsCast hcast]
      exact .refl depth _

end Braces

/-! ## Expressions -/

/-- How many braces a part closes that stand in front of it. -/
def Part.closes : Part → Nat
  | .entries => 1
  | _ => 0

/-- **The braces of an expression match**, and the entries of an object literal end with the brace
that closes it.

**Proof sketch.** Induction on the rules. Each rule that reads an opening brace reads the closing
one, and entries close one more brace than they open. Words, atoms and other signs leave the depth
as it is, and skipped types do by hypothesis. -/
theorem Reads.braces {inner : Substitution → Expr} {part : Part} {ts us : List Lexeme}
    {node : Node} (h : Reads inner part ts node us) (htypes : TypesMatch ts) (depth : Nat) :
    Braces (depth + part.closes) ts depth us := by
  induction h generalizing depth with
  | expression _ _ ih =>
    have hunary := ih htypes depth
    exact hunary.trans ((htypes.of_suffix hunary.isSuffix).skipCasts depth)
  | signed negative ht _ ih =>
    exact .sign ht (by cases negative <;> decide) (ih htypes.tail depth)
  | plain _ _ ihprimary ihlinks =>
    have hprimary := ihprimary htypes depth
    exact hprimary.trans (ihlinks (htypes.of_suffix hprimary.isSuffix) depth)
  | linksEnd => exact .refl depth _
  | named optional ht hu _ ih =>
    have hrest := Braces.word hu (ih htypes.tail.tail depth)
    cases optional with
    | false => exact .sign (c := '.') ht (by decide) hrest
    | true => exact .other ht (by simp [dot]) hrest
  | computed ht _ _ ihindex ihlinks =>
    have hindex := ihindex htypes.tail depth
    exact .sign ht (by decide)
      (hindex.trans (ihlinks (htypes.tail.of_suffix hindex.isSuffix) depth))
  | optionalComputed ht hu _ _ ihindex ihlinks =>
    have hindex := ihindex htypes.tail.tail depth
    have hlinks := ihlinks (htypes.tail.tail.of_suffix hindex.isSuffix) depth
    exact .other ht (by simp) (.sign hu (by decide) (hindex.trans hlinks))
  | nonNull ht _ _ ih => exact .sign ht (by decide) (ih htypes.tail depth)
  | index _ ht ih => exact (ih htypes depth).trans (.sign ht (by decide) (.refl depth _))
  | atom ht => exact .skip (fun _ _ hpunct => by simp [hpunct, atom?] at ht) (.refl depth _)
  | name ht => exact .word ht (.refl depth _)
  | bracketed ht _ hu ih =>
    exact .sign ht (by decide)
      ((ih htypes.tail depth).trans (.sign hu (by decide) (.refl depth _)))
  | object ht _ ih => exact .opened ht (ih htypes.tail depth)
  | array ht _ ih => exact .sign ht (by decide) (ih htypes.tail depth)
  | propertyValue ht _ ih => exact .sign ht (by decide) (ih htypes.tail depth)
  | spreadEntry ht _ ih | spreadItem ht _ ih =>
    exact .other ht (by simp) (ih htypes.tail depth)
  | shorthand ht => exact .word ht (.refl depth _)
  | property ht _ ih =>
    exact .skip (fun _ _ hpunct => by simp [hpunct, literalKey?] at ht) (ih htypes.tail depth)
  | computedProperty ht _ _ ihindex ihvalue =>
    have hindex := ihindex htypes.tail depth
    exact .sign ht (by decide)
      (hindex.trans (ihvalue (htypes.tail.of_suffix hindex.isSuffix) depth))
  | noEntry ht => exact .closed ht (.refl depth _)
  | moreEntries _ ht _ ihentry ihentries =>
    have hentry := ihentry htypes (depth + 1)
    have hentries := ihentries (htypes.of_suffix hentry.isSuffix).tail depth
    exact hentry.trans (.sign ht (by decide) hentries)
  | lastEntry _ ht ih => exact (ih htypes (depth + 1)).trans (.closed ht (.refl depth _))
  | valueItem _ ih => exact ih htypes depth
  | noItem ht => exact .sign ht (by decide) (.refl depth _)
  | hole ht _ ih => exact .sign ht (by decide) (ih htypes.tail depth)
  | moreItems _ ht _ ihitem ihitems =>
    have hitem := ihitem htypes depth
    have hitems := ihitems (htypes.of_suffix hitem.isSuffix).tail depth
    exact hitem.trans (.sign ht (by decide) hitems)
  | lastItem _ ht ih => exact (ih htypes depth).trans (.sign ht (by decide) (.refl depth _))

end Reader

end CardTable.Script
