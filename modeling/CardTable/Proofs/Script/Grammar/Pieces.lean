import CardTable.Proofs.Script.Lexer.ClosingBraces
import CardTable.Proofs.Script.Grammar.Endings
import CardTable.Proofs.Script.Grammar.Relocation

set_option autoImplicit false

/-!
# Texts that are parts of expressions

A text is a part of an expression if it is read as one up to a closing sign behind it. It is read in
the same way in the middle of other texts, whatever sign closes it there.

## Main definitions

* `CardTable.Script.Fills` — a text that is read as a part of an expression.

## Main results

* `CardTable.Script.Scans.place` — a text in front of a closing sign has the same tokens in front of
  other texts.
* `CardTable.Script.Reader.Reads.unique` — a part is read in one way only.
* `CardTable.Script.Fills.place` — a part of an expression in front of another text.
-/

namespace CardTable.Script

open Reader

/-! ## Gaps in front of closing signs -/

section Ends

variable {cs gap rest behind left : List Glyph} {g : Glyph} {c : Char} {o : Nat} {broken : Bool}

/-- The signs that end an expression. -/
abbrev IsClosing (c : Char) : Prop :=
  c ∈ [',', ')', ']', '\x7d']

/-- A sign that ends an expression begins neither a gap nor another token. -/
lemma IsClosing.plain (hc : IsClosing c) :
    isApart c = true ∧ isGap c = false ∧ c ∉ ['/', '*'] ∧ isBreak c = false := by
  revert c
  decide

/-- A closing mark is one byte long. -/
lemma IsClosing.utf8Size (hc : IsClosing c) : c.utf8Size = 1 := by
  revert c
  decide

/-- A sign that ends an expression is a token of its own. -/
lemma IsClosing.standsAlone (hc : IsClosing c) (next : Option Char) :
    standsAlone c next = true := by
  simp only [IsClosing, List.mem_cons, List.not_mem_nil, or_false] at hc
  rcases hc with rfl | rfl | rfl | rfl <;> rfl

/-- A sign of one character is that character. -/
lemma of_token_punct (h : token g rest = .ok (.sign (.punct c), behind)) :
    g.char = c ∧ behind = rest := by
  generalize ht : Token.sign (.punct c) = t at h
  cases token_eq_ok_iff.1 h with
  | sign =>
    rcases signOf_cases g rest with ⟨-, _, _, _, -, hsign⟩ | ⟨-, _, _, -, hsign⟩ | hsign
    · simp [hsign] at ht
    · simp [hsign] at ht
    · rw [hsign] at ht ⊢
      obtain ⟨⟩ := ht
      exact ⟨rfl, rfl⟩
  | _ => cases ht

/-- A text looks the same with a closing sign behind it. -/
lemma ahead_append_closing (hc : IsClosing c) (cs : List Glyph) (o : Nat)
    (hleft : ahead left = []) : ahead (cs ++ [⟨o, c⟩]) = ahead (cs ++ left) := by
  have hsame : Twin 0 0 cs cs := List.forall₂_same.2 fun _ _ => ⟨rfl, rfl⟩
  refine ahead_append hsame ?_
  rw [hleft, ahead_cons, if_pos hc.plain.1]

/-- Behind the first two characters of a comment there is more than a closing sign. -/
lemma exists_of_comment {o' : Nat} {d : Char} (hd : d ≠ c)
    (h : gap ++ [⟨o, c⟩] = g :: ⟨o', d⟩ :: rest) :
    ∃ gap', gap = g :: ⟨o', d⟩ :: gap' ∧ rest = gap' ++ [⟨o, c⟩] := by
  rcases gap with - | ⟨x, - | ⟨y, gap'⟩⟩
  · cases h
  · obtain ⟨-, h⟩ := List.cons.inj h
    obtain ⟨⟨-, hchar⟩, -⟩ := List.cons.inj h
    exact absurd rfl hd
  · simp only [List.cons_append, List.cons.injEq] at h
    obtain ⟨rfl, rfl, rfl⟩ := h
    exact ⟨gap', rfl, rfl⟩

/-- A gap behind which another text goes on. -/
lemma map_skipGap_append (r : Except Fault (Bool × List Glyph)) (first second : Bool) :
    ((r.map fun (later, behind) => (second || later, behind)).map
        fun (later, behind) => (first || later, behind)) =
      r.map fun (later, behind) => (first || second || later, behind) := by
  cases r <;> simp [Except.map, Bool.or_assoc]

/-- **A gap in front of a closing sign** is a gap in front of every text.

**Proof sketch.** Induction along the gap. White space and comments are skipped in front of every
text alike; a line comment cannot reach up to the closing sign, since it would take the sign along,
and a block comment has been closed. -/
theorem skipGap_append (hc : IsClosing c)
    (h : skipGap (gap ++ [⟨o, c⟩]) = .ok (broken, [⟨o, c⟩])) (hleft : ahead left = []) :
    skipGap (gap ++ left) =
      (skipGap left).map fun (later, behind) => (broken || later, behind) := by
  obtain ⟨-, hnogap, hnocomment, hnobreak⟩ := hc.plain
  have hnone : skipGap left =
      (skipGap left).map fun (later, behind) => (false || later, behind) := by
    cases skipGap left <;> simp [Except.map]
  generalize hcs : gap ++ [⟨o, c⟩] = cs at h
  fun_induction skipGap cs generalizing gap broken with
  | case1 => simp at hcs
  | case2 first rest hgap ih =>
    obtain ⟨later, hrest, rfl⟩ := exists_of_map_skipGap h
    cases gap with
    | nil =>
      obtain ⟨rfl, rfl⟩ := List.cons.inj hcs
      exact absurd hgap (by simp [hnogap])
    | cons g gap =>
      obtain ⟨rfl, rfl⟩ := List.cons.inj hcs
      rw [List.cons_append, skipGap_of_isGap _ hgap, ih rfl hrest, map_skipGap_append]
  | case3 first hgap hslash o' rest ih =>
    obtain ⟨gap, rfl, rfl⟩ := exists_of_comment (by rintro rfl; simp at hnocomment) hcs
    obtain ⟨front, hfront⟩ := isSuffix_of_skipGap h
    have hskip := ih hfront h
    rw [List.cons_append, List.cons_append, skipGap_of_line (gap ++ left) hslash rfl,
      List.dropWhile_append, ← hskip]
    rw [List.dropWhile_append] at hfront
    split at hfront
    · -- the comment would take the closing sign along
      have hdrop : [(⟨o, c⟩ : Glyph)].dropWhile (fun g => !isBreak g.char) = [] := by
        simp [hnobreak]
      rw [hdrop] at hfront
      simp at hfront
    · next hdrop =>
      rw [if_neg hdrop, ← List.append_cancel_right hfront]
  | case4 => cases h
  | case5 first hgap hslash o' rest inside behind hcomment ih =>
    obtain ⟨gap, rfl, rfl⟩ := exists_of_comment (by rintro rfl; simp at hnocomment) hcs
    obtain ⟨later, hbehind, rfl⟩ := exists_of_map_skipGap h
    obtain ⟨middle, rfl⟩ := isSuffix_of_skipGap hbehind
    obtain ⟨front, hfront, hcut⟩ := cutsOff_blockComment? (i := 0) (j := 0) hcomment
    rw [← List.append_assoc] at hfront
    obtain rfl := List.append_cancel_right hfront
    have hsame : Twin 0 0 front front := List.forall₂_same.2 fun _ _ => ⟨rfl, rfl⟩
    have hblock := hcut front (middle ++ left) hsame (ahead_append_closing hc middle o hleft)
    rw [List.cons_append, List.cons_append, List.append_assoc, skipGap_of_block hslash rfl hblock,
      ih rfl hbehind, map_skipGap_append]
  | case6 first rest =>
    obtain ⟨rfl, ⟨⟩⟩ := Prod.mk.inj (Except.ok.inj h)
    obtain rfl : gap = [] := List.append_cancel_right hcs
    exact hnone
  | case7 =>
    obtain ⟨rfl, ⟨⟩⟩ := Prod.mk.inj (Except.ok.inj h)
    obtain rfl : gap = [] := List.append_cancel_right hcs
    exact hnone

end Ends

/-! ## Tokens in front of closing signs -/

section Close

variable {cs left left' : List Glyph} {ts us : List Lexeme} {close t : Lexeme} {c : Char}

/-- A closing sign at the end of a text stands behind a gap. -/
lemma Scans.of_close (h : Scans cs [close] []) (hcs : IsLocated cs) (hclose : IsPunct c close) :
    ∃ gap o, cs = gap ++ [⟨o, c⟩] ∧ close.source = [⟨o, c⟩] ∧
      ∃ broken, skipGap (gap ++ [⟨o, c⟩]) = .ok (broken, [⟨o, c⟩]) := by
  obtain ⟨gap, broken, ⟨o, d⟩, front, behind, rfl, hgap, hsource, htoken, hscans⟩ :=
    h.cons_cases hcs
  rw [show close.token = _ from hclose] at htoken
  obtain ⟨rfl, hfront⟩ := of_token_punct htoken
  cases hscans
  obtain rfl : front = [] := by simpa using hfront.symm
  exact ⟨gap, o, rfl, hsource, broken, hgap⟩

/-- A text in front of a closing sign: its tokens, and the gap behind them. -/
lemma Scans.exists_gap {cs : List Char} (h : Scans (locate 0 (cs ++ [c])) (ts ++ [close]) [])
    (hclose : IsPunct c close) : ∃ front gap o broken, locate 0 cs = front ++ gap ∧
      locate 0 (cs ++ [c]) = front ++ (gap ++ [⟨o, c⟩]) ∧
      Scans (front ++ (gap ++ [⟨o, c⟩])) ts (gap ++ [⟨o, c⟩]) ∧ close.source = [⟨o, c⟩] ∧
      skipGap (gap ++ [⟨o, c⟩]) = .ok (broken, [⟨o, c⟩]) := by
  obtain ⟨mid, hfront, hlast⟩ := h.exists_of_append
  have hlocated := isLocated_locate 0 (cs ++ [c])
  obtain ⟨gap, o, rfl, hsource, broken, hgap⟩ :=
    hlast.of_close (hlocated.of_suffix hfront.isSuffix) hclose
  obtain ⟨front, htext⟩ := hfront.isSuffix
  rw [← htext] at hfront
  refine ⟨front, gap, o, broken, ?_, htext.symm, hfront, hsource, hgap⟩
  rw [locate_append, ← List.append_assoc] at htext
  exact (List.append_inj' htext rfl).1.symm

/-- A gap in front of a closing sign is one wherever it stands. -/
lemma skipGap_append_of_twin {gap gap' : List Glyph} {o o' : Nat} {broken : Bool}
    (hc : IsClosing c) (h : skipGap (gap ++ [⟨o, c⟩]) = .ok (broken, [⟨o, c⟩]))
    (htwin : Twin o' 0 gap gap') (hleft : ahead left = []) :
    skipGap (gap' ++ left) =
      (skipGap left).map fun (later, behind) => (broken || later, behind) := by
  obtain ⟨front, hfront, hcut⟩ := cutsOff_skipGap (i := o') (j := 0) h
  rw [List.append_nil] at hfront
  subst hfront
  have hsign : Twin o' 0 [⟨o, c⟩] [⟨o + o', c⟩] := .cons ⟨rfl, rfl⟩ .nil
  obtain ⟨⟨o₁, d⟩, ⟨hchar, hoffset⟩, hskip⟩ :=
    hcut (gap' ++ [⟨o + o', c⟩]) [] (List.rel_append htwin hsign) rfl
  obtain rfl : d = c := hchar
  obtain rfl : o + o' = o₁ := hoffset
  rw [List.append_nil] at hskip
  exact skipGap_append hc hskip hleft

/-- **A text in front of a closing sign** has the same tokens wherever it stands, and the gap behind
them is one there. -/
theorem Scans.exists_place {cs : List Char} (h : Scans (locate 0 (cs ++ [c])) (ts ++ [close]) [])
    (hclose : IsPunct c close) (hc : IsClosing c) (o : Nat) (hleft : ahead left = []) :
    ∃ gap ts' broken, List.Forall₂ (Lexeme.Twin o 0) ts ts' ∧
      Scans (locate o cs ++ left) ts' (gap ++ left) ∧ skipGap (gap ++ left) =
        (skipGap left).map fun (later, behind) => (broken || later, behind) := by
  obtain ⟨front, gap, o₀, broken, htext, -, hscans, -, hgap⟩ := h.exists_gap hclose
  have htwin := twin_locate o 0 cs
  rw [htext] at htwin
  obtain ⟨front', gap', htext', hfront, hgap'⟩ := exists_append_of_forall₂ htwin
  obtain ⟨front₀, hsame, hcut⟩ := hscans.cutsOff (i := o) (j := 0)
  obtain rfl := List.append_cancel_right hsame
  have hahead : ahead (gap ++ [⟨o₀, c⟩]) = ahead (gap' ++ left) := by
    refine ahead_append hgap' ?_
    rw [hleft, ahead_cons, if_pos hc.plain.1]
  obtain ⟨ts', hscans', hts⟩ := hcut front' (gap' ++ left) hfront hahead
  rw [htext', List.append_assoc]
  exact ⟨gap', ts', broken, hts, hscans', skipGap_append_of_twin hc hgap hgap' hleft⟩

/-- The same in front of other tokens, of which the first one may come to stand on a new line. -/
theorem Scans.place {cs : List Char} (h : Scans (locate 0 (cs ++ [c])) (ts ++ [close]) [])
    (hclose : IsPunct c close) (hc : IsClosing c) (o : Nat) (hleft : ahead left = [])
    (hbehind : Scans left (t :: us) left') :
    ∃ ts' broken, List.Forall₂ (Lexeme.Twin o 0) ts ts' ∧
      Scans (locate o cs ++ left) (ts' ++ { t with afterBreak := broken } :: us) left' := by
  obtain ⟨gap, ts', broken, hts, hscans, hgap⟩ := h.exists_place hclose hc o hleft
  cases hbehind with
  | cons hskip htoken hrest =>
    rw [hskip] at hgap
    exact ⟨ts', _, hts, hscans.append (.cons hgap htoken hrest)⟩

/-- The same at the end of a text. -/
lemma Scans.exists_lexemes {cs : List Char}
    (h : Scans (locate 0 (cs ++ [c])) (ts ++ [close]) []) (hclose : IsPunct c close)
    (hc : IsClosing c) (o : Nat) :
    ∃ ts', lexemes (locate o cs) = .ok ts' ∧ List.Forall₂ (Lexeme.Twin o 0) ts ts' := by
  have hnil : skipGap [] = .ok (false, []) := by rw [skipGap]
  obtain ⟨gap, ts', broken, hts, hscans, hgap⟩ := h.exists_place hclose hc o ahead_nil
  simp only [List.append_nil] at hscans hgap
  refine ⟨ts', ?_, hts⟩
  rw [hscans.lexemes_eq, lexemes_of_end (hgap.trans (by rw [hnil]; rfl))]
  exact congrArg Except.ok (List.append_nil ts')

end Close

/-! ## Tokens that are alike -/

/-- A text that stands at two offsets, the other way round. -/
lemma Twin.symm {i j : Nat} {cs cs' : List Glyph} (h : Twin i j cs cs') : Twin j i cs' cs :=
  (h.imp fun _ _ hg => ⟨hg.char.symm, hg.offset.symm⟩).flip

/-- A token that stands in two texts, the other way round. -/
lemma Token.Twin.symm {i j : Nat} {t t' : Token} (h : t.Twin i j t') : t'.Twin j i t := by
  cases h with
  | same _ ht => exact .same t ht
  | template head hparts =>
    refine .template head (hparts.imp fun p p' hp => ?_).flip
    exact ⟨⟨hp.1.source.symm, hp.1.stop.symm⟩, hp.2.symm⟩

namespace Lexeme.Alike

/-- A token is like itself. -/
lemma refl (t : Lexeme) : t.Alike t :=
  ⟨⟨0, 0, .refl _⟩, fun _ _ => rfl⟩

/-- Either token may be the first one. -/
lemma symm {t t' : Lexeme} (h : t.Alike t') : t'.Alike t := by
  obtain ⟨i, j, htoken⟩ := h.token
  exact ⟨⟨j, i, htoken.symm⟩, fun w hw => (h.afterBreak w ((h.word_iff w).1 hw)).symm⟩

end Lexeme.Alike

/-! ## Parts in front of closing signs -/

section Parts

variable {inner inner' : Substitution → Expr} {part : Part} {ts ts' us us' : List Lexeme}
  {node node' : Node} {close : Lexeme} {c : Char}

namespace Reader

/-- What was read to its end was read in one way. -/
lemma isWhole_unique {α : Type} {n : Nat} {r : Reading α n} {tree tree' : α}
    (h : r.IsWhole tree us) (h' : r.IsWhole tree' us') : tree = tree' ∧ us = us' := by
  obtain ⟨_, rfl⟩ := h
  obtain ⟨_, heq⟩ := h'
  obtain ⟨rfl, rfl⟩ := Reading.whole.inj heq
  exact ⟨rfl, rfl⟩

/-- **A part is read in one way only**, since it is what the readers give. -/
theorem Reads.unique (h : Reads inner part ts node us) (h' : Reads inner part ts node' us') :
    node = node' ∧ us = us' := by
  have hgives := gives_of_reads ⟨0, 0⟩ h
  have hgives' := gives_of_reads ⟨0, 0⟩ h'
  cases part <;> cases node <;> try exact hgives.elim
  all_goals cases node' <;> try exact hgives'.elim
  case links.links.links ls ls' =>
    obtain ⟨hlinked, rfl⟩ := isWhole_unique (hgives (.constant none) [])
      (hgives' (.constant none) [])
    refine ⟨?_, rfl⟩
    cases ls <;> cases ls' <;> simp_all [linked]
  case entries.entries.entries =>
    obtain ⟨hobject, rfl⟩ := isWhole_unique (hgives []) (hgives' [])
    exact ⟨congrArg Node.entries (Expr.object.inj hobject), rfl⟩
  case items.items.items =>
    obtain ⟨harray, rfl⟩ := isWhole_unique (hgives []) (hgives' [])
    exact ⟨congrArg Node.items (Expr.array.inj harray), rfl⟩
  all_goals
    obtain ⟨rfl, rfl⟩ := isWhole_unique hgives hgives'
    exact ⟨rfl, rfl⟩

/-- Tokens that are alike, in front of what is compared already. -/
lemma Erases.of_alike {rs rs' : List Lexeme} (h : List.Forall₂ Lexeme.Alike ts ts')
    (hbehind : Erases us us' .outside rs rs') :
    Erases us us' .outside (ts ++ rs) (ts' ++ rs') := by
  induction h with
  | nil => exact hbehind
  | cons ht _ ih => exact .keep ht ih

/-- Behind a part, a closing sign is compared with one token. -/
lemma After.exists_of_close {behind : List Lexeme} (h : After [] [] part [close] behind)
    (hclose : IsPunct c close) : ∃ t, behind = [t] := by
  have hstage : (∃ stage, Erases [] [] stage [close] behind) ∨ IsStuck [close] := by
    cases part
    case index | entries | items => exact .inl ⟨_, h⟩
    case unary | links | primary => exact .inl h
    all_goals exact Or.imp_left (fun h => ⟨_, h⟩) h
  rcases hstage with ⟨stage, h⟩ | hstuck
  · obtain ⟨t, rest, rfl, -, hrest⟩ := h.exists_of_stage hclose.ne_word (Nat.zero_le _)
    rw [hrest.eq_of_behind]
    exact ⟨t, rfl⟩
  · obtain ⟨w, hw⟩ := hstuck.exists_word
    exact absurd hw (hclose.ne_word w)

/-- A part in front of a closing sign is read as a part with the same values where the tokens are
alike. -/
lemma Reads.exists_of_alike (hinner : ∀ s s', s.Alike s' → (inner s).Refines (inner' s'))
    (halike : List.Forall₂ Lexeme.Alike ts ts') (hclose : IsPunct c close)
    (h : Reads inner part (ts ++ [close]) node [close]) :
    ∃ node', Reads inner' part (ts' ++ [close]) node' [close] ∧ node.Refines node' := by
  have herases : Erases [] [] .outside (ts ++ [close]) (ts' ++ [close]) :=
    .of_alike halike (.keep (.refl close) .behind)
  have hbefore : Before [] [] part (ts ++ [close]) (ts' ++ [close]) := by
    cases part
    case links => exact ⟨_, herases⟩
    all_goals exact herases
  obtain ⟨node', behind, h', hrefines, hafter⟩ :=
    reads_erases hinner (.inl ⟨rfl, rfl⟩) h hbefore (Nat.zero_le _)
  obtain ⟨t, rfl⟩ := hafter.exists_of_close hclose
  obtain ⟨front, hfront⟩ := h'.isSuffix
  obtain ⟨-, hlast⟩ := List.append_inj' hfront rfl
  exact ⟨node', hlast ▸ h', hrefines⟩

/-- **A part in front of a closing sign** has the same values wherever it stands. -/
theorem Reads.exists_same (halike : List.Forall₂ Lexeme.Alike ts ts') (hclose : IsPunct c close)
    (h : Reads substitutionExpr part (ts ++ [close]) node [close]) :
    ∃ node', Reads substitutionExpr part (ts' ++ [close]) node' [close] ∧ node.Refines node' ∧
      node'.Refines node := by
  have hinner : ∀ s s' : Substitution, s.Alike s' →
      (substitutionExpr s).Refines (substitutionExpr s') := fun _ _ => substitutionExpr_refines
  obtain ⟨node', h', hrefines⟩ := h.exists_of_alike hinner halike hclose
  have hback : List.Forall₂ Lexeme.Alike ts' ts := (halike.imp fun _ _ => .symm).flip
  obtain ⟨node'', h'', hrefines'⟩ := h'.exists_of_alike hinner hback hclose
  obtain ⟨rfl, -⟩ := h.unique h''
  exact ⟨node', h', hrefines, hrefines'⟩

end Reader

end Parts

/-! ## Texts that are parts of expressions -/

/-- The text `cs` is read as the given part of an expression: with the sign `c` behind it, it is
read up to that sign, as `node`. -/
def Fills (c : Char) (part : Part) (cs : List Char) (node : Node) : Prop :=
  ∃ ts close, Scans (locate 0 (cs ++ [c])) (ts ++ [close]) [] ∧ IsPunct c close ∧
    Reads substitutionExpr part (ts ++ [close]) node [close]

section Fills

variable {c : Char} {part : Part} {cs : List Char} {node : Node} {ts us : List Lexeme}
  {close t : Lexeme}

/-- A part in front of a closing sign is read in front of all tokens at which it ends. -/
lemma Reader.Reads.inFront (h : Reads substitutionExpr part (ts ++ [close]) node [close])
    (hclose : IsPunct c close) (hc : IsClosing c) (hus : EndsPart us part) :
    Reads substitutionExpr part (ts ++ us) node us := by
  obtain ⟨rs, hrs, hreads⟩ :=
    h.replaceEnd (fun _ _ => rfl) hclose hc (List.nil_append [close]).symm fun _ => hus
  obtain rfl := List.append_cancel_right hrs
  exact hreads

/-- **A part of an expression in front of other tokens**: it has the same values there. -/
theorem Fills.place (h : Fills c part cs node) (hc : IsClosing c) (o : Nat)
    {left left' : List Glyph} (hleft : ahead left = []) (hbehind : Scans left (t :: us) left') :
    ∃ ts node' broken, Scans (locate o cs ++ left)
    (ts ++ { t with afterBreak := broken } :: us) left' ∧
      node.Refines node' ∧ node'.Refines node ∧
      ∀ vs, EndsPart vs part → Reads substitutionExpr part (ts ++ vs) node' vs := by
  obtain ⟨ts, close, hscans, hclose, hreads⟩ := h
  obtain ⟨ts', broken, htwin, hscans'⟩ := hscans.place hclose hc o hleft hbehind
  obtain ⟨node', hreads', hrefines, hrefines'⟩ :=
    hreads.exists_same (htwin.imp fun _ _ => Lexeme.Twin.alike) hclose
  exact ⟨ts', node', broken, hscans', hrefines, hrefines', fun vs hvs =>
    hreads'.inFront hclose hc hvs⟩

/-- The same at the end of a text. -/
lemma Fills.exists_lexemes (h : Fills c part cs node) (hc : IsClosing c) (o : Nat) :
    ∃ ts node', lexemes (locate o cs) = .ok ts ∧ node.Refines node' ∧ node'.Refines node ∧
      ∀ vs, EndsPart vs part → Reads substitutionExpr part (ts ++ vs) node' vs := by
  obtain ⟨ts, close, hscans, hclose, hreads⟩ := h
  obtain ⟨ts', hts', htwin⟩ := hscans.exists_lexemes hclose hc o
  obtain ⟨node', hreads', hrefines, hrefines'⟩ :=
    hreads.exists_same (htwin.imp fun _ _ => Lexeme.Twin.alike) hclose
  exact ⟨ts', node', hts', hrefines, hrefines', fun vs hvs => hreads'.inFront hclose hc hvs⟩

/-- **A part of an expression with a closing sign** has the same values wherever it stands, whatever
sign closes it there. -/
theorem Fills.closed (h : Fills c part cs node) (hc : IsClosing c) {d : Char} (hd : IsClosing d)
    (o : Nat) (left : List Glyph) :
    ∃ ts close node', Scans (locate o (cs ++ [d]) ++ left) (ts ++ [close]) left ∧
      IsPunct d close ∧ node.Refines node' ∧ node'.Refines node ∧
      ∀ vs, EndsPart vs part → Reads substitutionExpr part (ts ++ vs) node' vs := by
  obtain ⟨close, hscans, hclose, -⟩ :=
    exists_scans_sign left (hd.standsAlone _) (o + Text.byteCount cs)
  have hleft : ahead (⟨o + Text.byteCount cs, d⟩ :: left) = [] := by
    rw [ahead_cons, if_pos hd.plain.1]
  obtain ⟨ts, node', broken, hscans', hrefines, hrefines', hreads⟩ := h.place hc o hleft hscans
  refine ⟨ts, { close with afterBreak := broken }, node', ?_, hclose, hrefines, hrefines', hreads⟩
  rw [locate_append_single o cs hd.utf8Size, List.append_assoc]
  exact hscans'

end Fills

end CardTable.Script
