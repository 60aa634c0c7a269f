import CardTable.Files.Path
import Mathlib.Tactic.Lemma

set_option autoImplicit false

/-!
# The steps of a path

A path is read as its stretches between slashes, and walked as the steps that these stand for. The
steps of a path in a directory are those of the directory followed by those of the path, and the
steps to the directory of a path are the first ones of the path.

## Main results

* `CardTable.Path.splitSlash_joinSlash`, `CardTable.Path.joinSlash_splitSlash` — cutting a text at
  its slashes and putting it together.
* `CardTable.Path.steps_join` — the steps of a path in a directory.
* `CardTable.Path.exists_steps_of_parent?` — the steps to the directory of a path.
* `CardTable.Path.exists_steps_of_fileName?` — the steps to a path with a name at its end.
* `CardTable.Path.slash_not_mem_of_fileName?` — the name at the end of a path.
* `CardTable.Path.pairwise_mergeSort_notAfter` — sorted paths are in order.
-/

namespace CardTable

namespace Path

/-! ## Cutting at slashes -/

/-- There is always a stretch. -/
lemma splitSlash_ne_nil (s : List Char) : splitSlash s ≠ [] := by
  cases s with
  | nil => exact List.cons_ne_nil _ _
  | cons c rest =>
    unfold splitSlash
    split
    · exact List.cons_ne_nil _ _
    · split <;> exact List.cons_ne_nil _ _

/-- A text is cut at each slash on its own. -/
lemma splitSlash_append (xs ys : List Char) :
    splitSlash (xs ++ '/' :: ys) = splitSlash xs ++ splitSlash ys := by
  induction xs with
  | nil => rfl
  | cons c xs ih =>
    rw [List.cons_append, splitSlash, splitSlash]
    by_cases hslash : c = '/'
    · rw [if_pos hslash, if_pos hslash, ih, List.cons_append]
    · rw [if_neg hslash, if_neg hslash, ih]
      cases hpieces : splitSlash xs with
      | nil => exact absurd hpieces (splitSlash_ne_nil xs)
      | cons piece pieces => rfl

/-- A text without slashes is one stretch. -/
lemma splitSlash_of_not_mem {s : List Char} (h : '/' ∉ s) : splitSlash s = [s] := by
  induction s with
  | nil => rfl
  | cons c s ih =>
    rw [List.mem_cons, not_or] at h
    rw [splitSlash, if_neg (Ne.symm h.1), ih h.2]

/-- No stretch has a slash. -/
lemma slash_not_mem_of_mem_splitSlash {s piece : List Char} (h : piece ∈ splitSlash s) :
    '/' ∉ piece := by
  induction s generalizing piece with
  | nil =>
    obtain rfl := List.mem_singleton.1 h
    exact List.not_mem_nil
  | cons c s ih =>
    rw [splitSlash] at h
    split at h
    · rcases List.mem_cons.1 h with rfl | h
      · exact List.not_mem_nil
      · exact ih h
    · next hslash =>
      cases hpieces : splitSlash s with
      | nil => exact absurd hpieces (splitSlash_ne_nil s)
      | cons first pieces =>
        rw [hpieces] at h ih
        rcases List.mem_cons.1 h with rfl | h
        · rw [List.mem_cons, not_or]
          exact ⟨Ne.symm hslash, ih (List.mem_cons_self ..)⟩
        · exact ih (List.mem_cons_of_mem _ h)

/-- Stretches are put together with a slash between any two parts of them. -/
lemma joinSlash_append {xs ys : List (List Char)} (hx : xs ≠ []) (hy : ys ≠ []) :
    joinSlash (xs ++ ys) = joinSlash xs ++ '/' :: joinSlash ys := by
  induction xs with
  | nil => exact absurd rfl hx
  | cons x xs ih =>
    cases xs with
    | nil =>
      cases ys with
      | nil => exact absurd rfl hy
      | cons y ys => rfl
    | cons x' xs =>
      have hrest := ih (List.cons_ne_nil _ _)
      show x ++ '/' :: joinSlash (x' :: xs ++ ys) = x ++ '/' :: joinSlash (x' :: xs) ++ _
      rw [hrest, List.append_assoc, List.cons_append]

/-- Stretches without slashes are what their text is cut into. -/
theorem splitSlash_joinSlash {pieces : List (List Char)} (hne : pieces ≠ [])
    (h : ∀ piece ∈ pieces, '/' ∉ piece) : splitSlash (joinSlash pieces) = pieces := by
  induction pieces with
  | nil => exact absurd rfl hne
  | cons piece pieces ih =>
    have hpiece : splitSlash piece = [piece] :=
      splitSlash_of_not_mem (h piece (List.mem_cons_self ..))
    cases pieces with
    | nil => exact hpiece
    | cons next rest =>
      have hrest := ih (List.cons_ne_nil _ _) fun other ho => h other (List.mem_cons_of_mem _ ho)
      show splitSlash (piece ++ '/' :: joinSlash (next :: rest)) = _
      rw [splitSlash_append, hpiece, hrest, List.singleton_append]

/-- The stretches of a text make up the text. -/
theorem joinSlash_splitSlash (s : List Char) : joinSlash (splitSlash s) = s := by
  induction s with
  | nil => rfl
  | cons c s ih =>
    rw [splitSlash]
    split
    · next hslash =>
      rw [← List.singleton_append, joinSlash_append (List.cons_ne_nil _ _) (splitSlash_ne_nil s), ih,
        hslash]
      rfl
    · cases hpieces : splitSlash s with
      | nil => exact absurd hpieces (splitSlash_ne_nil s)
      | cons piece pieces =>
        rw [hpieces] at ih
        rw [← ih]
        cases pieces <;> rfl

/-! ## Paths in directories -/

/-- **The steps of a path in a directory** lead to the directory first. -/
theorem steps_join {p q : Path} (h : q.isAbsolute = false) :
    (p.join q).steps = p.steps ++ q.steps := by
  have hempty : componentOf? [] = none := rfl
  unfold join
  rw [if_neg (by simp [h])]
  split
  · next hbare =>
    rcases hbare with hnone | hslash
    · simp [steps, hnone, splitSlash, hempty]
    · obtain ⟨front, hfront⟩ := List.getLast?_eq_some_iff.1 (beq_iff_eq.1 hslash)
      simp only [steps, String.toList_append, hfront, List.append_assoc, List.singleton_append,
        splitSlash_append, List.filterMap_append]
      simp [splitSlash, hempty]
  · have htext : (p.text ++ "/" ++ q.text).toList = p.text.toList ++ '/' :: q.text.toList := by
      simp
    simp only [steps, htext, splitSlash_append, List.filterMap_append]

/-- A path in a directory starts where the directory does. -/
lemma isAbsolute_join {p q : Path} (h : q.isAbsolute = false) :
    (p.join q).isAbsolute = p.isAbsolute := by
  unfold join
  rw [if_neg (by simp [h])]
  by_cases hnone : p.text = ""
  · rw [if_pos (.inl hnone)]
    have hp : p.isAbsolute = false := by simp [isAbsolute, hnone]
    rw [hp, ← h]
    simp [isAbsolute, hnone]
  · have hcons : p.text.toList ≠ [] := fun hnil => hnone (String.toList_eq_nil_iff.1 hnil)
    obtain ⟨c, rest, htext⟩ := List.exists_cons_of_ne_nil hcons
    split <;> simp [isAbsolute, htext]

/-! ## Directories of paths -/

/-- Only idle stretches are dropped. -/
lemma exists_append_dropIdle (pieces : List (List Char)) :
    ∃ idle, pieces = idle ++ dropIdle pieces ∧ ∀ piece ∈ idle, isIdle piece = true := by
  have hnone : ∀ piece ∈ ([] : List (List Char)), isIdle piece = true :=
    fun _ h => absurd h List.not_mem_nil
  induction pieces with
  | nil => exact ⟨[], rfl, hnone⟩
  | cons piece pieces ih =>
    cases pieces with
    | nil => exact ⟨[], rfl, hnone⟩
    | cons next rest =>
      unfold dropIdle
      split
      · next hpiece =>
        obtain ⟨idle, hidle, hall⟩ := ih
        exact ⟨piece :: idle, by rw [List.cons_append, ← hidle], List.forall_mem_cons.2 ⟨hpiece, hall⟩⟩
      · exact ⟨[], rfl, hnone⟩

/-- One stretch is always left. -/
lemma dropIdle_ne_nil {pieces : List (List Char)} (h : pieces ≠ []) : dropIdle pieces ≠ [] := by
  induction pieces with
  | nil => exact absurd rfl h
  | cons piece pieces ih =>
    cases pieces with
    | nil => exact List.cons_ne_nil _ _
    | cons next rest =>
      unfold dropIdle
      split
      · exact ih (List.cons_ne_nil _ _)
      · exact List.cons_ne_nil _ _

/-- The last of several stretches that are left says something. -/
lemma not_isIdle_of_dropIdle {pieces rest : List (List Char)} {piece next : List Char}
    (h : dropIdle pieces = piece :: next :: rest) : isIdle piece = false := by
  induction pieces with
  | nil => cases h
  | cons first pieces ih =>
    cases pieces with
    | nil => cases (List.cons.inj h).2
    | cons second more =>
      unfold dropIdle at h
      split at h
      · exact ih h
      · next hidle =>
        obtain ⟨rfl, -⟩ := List.cons.inj h
        exact Bool.not_eq_true _ ▸ hidle

/-- A stretch that says something stands for a step. -/
lemma componentOf?_ne_none {piece : List Char} (h : isIdle piece = false) :
    componentOf? piece ≠ none := by
  have hpiece : piece ≠ [] := by
    rintro rfl
    cases h
  unfold componentOf?
  rw [if_neg hpiece]
  split
  · exact Option.some_ne_none _
  · split <;> exact Option.some_ne_none _

/-- Idle stretches stand for steps that go nowhere. -/
lemma filter_steps_of_isIdle {pieces : List (List Char)}
    (h : ∀ piece ∈ pieces, isIdle piece = true) :
    (pieces.filterMap componentOf?).filter (· ≠ .current) = [] := by
  refine List.filter_eq_nil_iff.2 fun c hc => ?_
  obtain ⟨piece, hpiece, hcomponent⟩ := List.mem_filterMap.1 hc
  rcases Bool.or_eq_true_iff.1 (h piece hpiece) with hnone | hcurrent
  · rw [beq_iff_eq.1 hnone] at hcomponent
    cases hcomponent
  · rw [beq_iff_eq.1 hcurrent] at hcomponent
    simpa using (Option.some.inj hcomponent).symm

/-- A stretch that says something stands for a step that goes somewhere. -/
lemma exists_componentOf?_eq_some {piece : List Char} (h : isIdle piece = false) :
    ∃ c, componentOf? piece = some c ∧ c ≠ .current := by
  obtain ⟨c, hc⟩ := Option.ne_none_iff_exists'.1 (componentOf?_ne_none h)
  refine ⟨c, hc, ?_⟩
  rintro rfl
  unfold componentOf? at hc
  split at hc
  · cases hc
  split at hc
  · next hpiece =>
    rw [hpiece] at h
    cases h
  · split at hc <;> cases hc

/-- The stretches of a path are those of its directory, followed by the last one among idle ones. -/
lemma exists_append_of_dropIdle {pieces rest : List (List Char)} {last next : List Char}
    (h : dropIdle pieces.reverse = last :: next :: rest) :
    ∃ before behind, pieces = (dropIdle (next :: rest)).reverse ++ (before ++ last :: behind) ∧
      (∀ piece ∈ before, isIdle piece = true) ∧ ∀ piece ∈ behind, isIdle piece = true := by
  obtain ⟨idle, hidle, hall⟩ := exists_append_dropIdle pieces.reverse
  obtain ⟨idle', hidle', hall'⟩ := exists_append_dropIdle (next :: rest)
  rw [h] at hidle
  generalize dropIdle (next :: rest) = kept at hidle' ⊢
  refine ⟨idle'.reverse, idle.reverse, ?_, fun piece hpiece => hall' piece (List.mem_reverse.1 hpiece),
    fun piece hpiece => hall piece (List.mem_reverse.1 hpiece)⟩
  rw [← List.reverse_reverse pieces, hidle, hidle']
  simp only [List.reverse_append, List.reverse_cons, List.append_assoc, List.singleton_append]

/-- The text of a path with several stretches that say something is that of its directory, with more
behind a slash. -/
lemma text_eq_of_dropIdle {p : Path} {rest : List (List Char)} {last next : List Char}
    (h : dropIdle (splitSlash p.text.toList).reverse = last :: next :: rest) :
    ∃ kept before behind, (dropIdle (next :: rest)).reverse = kept ∧
      splitSlash (joinSlash kept) = kept ∧
      splitSlash p.text.toList = kept ++ (before ++ last :: behind) ∧
      p.text.toList = joinSlash kept ++ '/' :: joinSlash (before ++ last :: behind) ∧
      (∀ piece ∈ before, isIdle piece = true) ∧ ∀ piece ∈ behind, isIdle piece = true := by
  have hkept : (dropIdle (next :: rest)).reverse ≠ [] :=
    fun hnil => dropIdle_ne_nil (List.cons_ne_nil _ _) (List.reverse_eq_nil_iff.1 hnil)
  obtain ⟨before, behind, hpieces, hbefore, hbehind⟩ := exists_append_of_dropIdle h
  refine ⟨_, before, behind, rfl, ?_, hpieces, ?_, hbefore, hbehind⟩
  · refine splitSlash_joinSlash hkept fun piece hpiece => ?_
    refine slash_not_mem_of_mem_splitSlash (s := p.text.toList) ?_
    rw [hpieces]
    exact List.mem_append_left _ hpiece
  · rw [← joinSlash_append hkept (by simp), ← hpieces, joinSlash_splitSlash]

/-- **The steps to the directory of a path** are the first ones of the path, and one more goes
somewhere. -/
theorem exists_steps_of_parent? {p q : Path} (h : p.parent? = some q) (hq : q.text ≠ "") :
    q.isAbsolute = p.isAbsolute ∧ ∃ tail c, p.steps = q.steps ++ tail ∧
      tail.filter (· ≠ .current) = [c] := by
  unfold parent? at h
  split at h
  · cases h
  split at h
  · next last next rest hlast =>
    dsimp only at h
    obtain ⟨kept, before, behind, hkept, hsplit, hpieces, htext, hbefore, hbehind⟩ :=
      text_eq_of_dropIdle hlast
    rw [hkept] at h
    obtain ⟨c, hc, hmoves⟩ := exists_componentOf?_eq_some (not_isIdle_of_dropIdle hlast)
    have htail :
        ((before ++ last :: behind).filterMap componentOf?).filter (· ≠ .current) = [c] := by
      rw [List.filterMap_append, List.filter_append, filter_steps_of_isIdle hbefore,
        List.filterMap_cons_some hc, List.filter_cons, filter_steps_of_isIdle hbehind]
      simp [hmoves]
    have hsteps : p.steps = kept.filterMap componentOf? ++
        (before ++ last :: behind).filterMap componentOf? := by
      rw [steps, hpieces, List.filterMap_append]
    cases hjoined : joinSlash kept with
    | nil =>
      have habsolute : p.isAbsolute = true := by simp [isAbsolute, htext, hjoined]
      rw [if_pos ⟨hjoined, habsolute⟩] at h
      obtain rfl := Option.some.inj h
      refine ⟨habsolute.symm, _, c, ?_, htail⟩
      rw [hsteps, ← hsplit, hjoined]
      rfl
    | cons d joined =>
      have hnamed : ¬ (joinSlash kept = [] ∧ p.isAbsolute = true) := by simp [hjoined]
      rw [if_neg hnamed] at h
      obtain rfl := Option.some.inj h
      refine ⟨?_, _, c, ?_, htail⟩
      · simp [isAbsolute, htext, hjoined]
      · rw [hsteps, steps, String.toList_ofList, hsplit]
  · obtain rfl := Option.some.inj h
    exact absurd rfl hq

/-- A path whose directory is the bare one has one stretch that may say something, and does not
begin at the root. -/
lemma splitSlash_of_parent?_bare {p q : Path} (h : p.parent? = some q) (hq : q.text = "") :
    p.isAbsolute = false ∧ ∃ first behind, splitSlash p.text.toList = first :: behind ∧
      ∀ piece ∈ behind, isIdle piece = true := by
  unfold parent? at h
  split at h
  · cases h
  next hnamed =>
  split at h
  · next last next rest hlast =>
    -- what stands behind a slash is not in the bare directory
    obtain ⟨kept, before, behind, hkept, -, -, htext, -, -⟩ := text_eq_of_dropIdle hlast
    dsimp only at h
    rw [hkept] at h
    split at h
    · obtain rfl := Option.some.inj h
      exact absurd hq (by decide)
    · next hrelative =>
      obtain rfl := Option.some.inj h
      have hnone : joinSlash kept = [] := by simpa using congrArg String.toList hq
      exact absurd ⟨hnone, by simp [isAbsolute, htext, hnone]⟩ hrelative
  · next hfew =>
    obtain ⟨idle, hidle, hall⟩ := exists_append_dropIdle (splitSlash p.text.toList).reverse
    obtain ⟨first, hfirst⟩ : ∃ first, dropIdle (splitSlash p.text.toList).reverse = [first] := by
      have hsome : dropIdle (splitSlash p.text.toList).reverse ≠ [] :=
        dropIdle_ne_nil fun hnil => splitSlash_ne_nil _ (List.reverse_eq_nil_iff.1 hnil)
      match hdropped : dropIdle (splitSlash p.text.toList).reverse with
      | [] => exact absurd hdropped hsome
      | [first] => exact ⟨first, rfl⟩
      | last :: next :: rest => exact absurd hdropped (hfew last next rest)
    have hpieces : splitSlash p.text.toList = first :: idle.reverse := by
      rw [← List.reverse_reverse (splitSlash p.text.toList), hidle, hfirst, List.reverse_append]
      rfl
    have hbehind : ∀ piece ∈ idle.reverse, isIdle piece = true :=
      fun piece hpiece => hall piece (List.mem_reverse.1 hpiece)
    refine ⟨Bool.eq_false_iff.2 fun habsolute => hnamed (.inr ?_), first, _, hpieces, hbehind⟩
    -- from the root nothing is left but the root
    have hroot : first = [] := by
      cases htext : p.text.toList with
      | nil => simp [isAbsolute, htext] at habsolute
      | cons c rest =>
        obtain rfl : c = '/' := by simpa [isAbsolute, htext] using habsolute
        rw [htext, splitSlash, if_pos rfl] at hpieces
        exact (List.cons.inj hpieces).1.symm
    rw [components, if_pos habsolute, steps, hpieces, filter_steps_of_isIdle]
    exact List.forall_mem_cons.2 ⟨hroot ▸ rfl, hbehind⟩

/-! ## Names -/

/-- A name is the stretch that it comes from. -/
lemma eq_of_componentOf?_eq_name {piece : List Char} {s : String}
    (h : componentOf? piece = some (.name s)) : s = String.ofList piece := by
  unfold componentOf? at h
  split at h
  · cases h
  split at h
  · cases h
  split at h
  · cases h
  · exact (Component.name.inj (Option.some.inj h)).symm

/-- A long stretch is a name. -/
lemma componentOf?_of_length {piece : List Char} (h : 2 < piece.length) :
    componentOf? piece = some (.name (String.ofList piece)) := by
  unfold componentOf?
  rw [if_neg, if_neg, if_neg]
  all_goals
    rintro rfl
    exact absurd h (by decide)

/-- The components of a path are steps, apart from the root. -/
lemma mem_steps_of_mem_components {p : Path} {c : Component} (h : c ∈ p.components)
    (hroot : c ≠ .root) : c ∈ p.steps := by
  unfold components at h
  split at h
  · rcases List.mem_cons.1 h with hc | hrest
    · exact absurd hc hroot
    · exact (List.mem_filter.1 hrest).1
  split at h
  · exact absurd h List.not_mem_nil
  · next hsteps =>
    rw [hsteps]
    rcases List.mem_cons.1 h with hfirst | hrest
    · exact hfirst ▸ List.mem_cons_self ..
    · exact List.mem_cons_of_mem _ (List.mem_filter.1 hrest).1

/-- The name at the end of a path has no slash. -/
theorem slash_not_mem_of_fileName? {p : Path} {s : String} (h : p.fileName? = some s) :
    '/' ∉ s.toList := by
  unfold fileName? at h
  split at h
  · next name hlast =>
    obtain rfl := Option.some.inj h
    have hroot : Component.name name ≠ .root := by
      intro heq
      cases heq
    have hstep := mem_steps_of_mem_components (List.mem_of_getLast? hlast) hroot
    obtain ⟨piece, hpiece, hcomponent⟩ := List.mem_filterMap.1 hstep
    rw [eq_of_componentOf?_eq_name hcomponent, String.toList_ofList]
    exact slash_not_mem_of_mem_splitSlash hpiece
  · cases h

/-- The name at the end of a path is the last of its steps that goes somewhere. -/
lemma getLast?_filter_steps_of_fileName? {p : Path} {s : String} (h : p.fileName? = some s) :
    (p.steps.filter (· ≠ .current)).getLast? = some (.name s) := by
  have hlast : p.components.getLast? = some (.name s) := by
    unfold fileName? at h
    split at h
    · next hname => rw [hname, Option.some.inj h]
    · cases h
  -- in front of these steps there may be the root, or a step that stays where it is
  have hfront : ∀ {c : Component} {cs : List Component}, c ≠ .name s →
      (c :: cs).getLast? = some (.name s) → cs.getLast? = some (.name s) := by
    intro c cs hc hcons
    rw [List.getLast?_cons] at hcons
    cases hcs : cs.getLast? with
    | none =>
      rw [hcs] at hcons
      exact absurd (Option.some.inj hcons) hc
    | some d =>
      rw [hcs] at hcons
      exact hcons
  unfold components at hlast
  split at hlast
  · exact hfront (fun heq => by cases heq) hlast
  split at hlast
  · cases hlast
  · next first rest hsteps =>
    rw [hsteps, List.filter_cons]
    split
    · exact hlast
    · next hcurrent =>
      have hfirst : first = .current := by simpa using hcurrent
      exact hfront (fun heq => by cases hfirst.symm.trans heq) hlast

/-- **The steps to a path with a name at its end** lead to its directory first, and go from there to
the name. -/
theorem exists_steps_of_fileName? {p : Path} {s : String} (h : p.fileName? = some s) :
    ∃ q tail, p.parent? = some q ∧ q.isAbsolute = p.isAbsolute ∧ p.steps = q.steps ++ tail ∧
      tail.filter (· ≠ .current) = [.name s] := by
  have hlast := getLast?_filter_steps_of_fileName? h
  obtain ⟨q, hparent⟩ : ∃ q, p.parent? = some q := by
    unfold parent?
    split
    · next hnone =>
      rcases hnone with hnone | hnone <;> simp [fileName?, hnone] at h
    · split <;> exact ⟨_, rfl⟩
  by_cases hq : q.text = ""
  · obtain ⟨hstart, first, behind, hpieces, hidle⟩ := splitSlash_of_parent?_bare hparent hq
    have hbare : q.isAbsolute = false ∧ q.steps = [] := by
      rw [isAbsolute, steps, hq]
      exact ⟨rfl, rfl⟩
    refine ⟨q, p.steps, hparent, hbare.1.trans hstart.symm, by rw [hbare.2, List.nil_append], ?_⟩
    rw [steps, hpieces, ← List.singleton_append, List.filterMap_append, List.filter_append,
      filter_steps_of_isIdle hidle, List.append_nil] at hlast ⊢
    cases hfirst : isIdle first with
    | true =>
      rw [filter_steps_of_isIdle (List.forall_mem_singleton.2 hfirst)] at hlast
      cases hlast
    | false =>
      obtain ⟨c, hc, hmoves⟩ := exists_componentOf?_eq_some hfirst
      have hone : ([first].filterMap componentOf?).filter (· ≠ .current) = [c] := by
        simp [hc, hmoves]
      rw [hone] at hlast ⊢
      rw [show c = .name s from Option.some.inj hlast]
  · obtain ⟨hstart, tail, c, hsteps, htail⟩ := exists_steps_of_parent? hparent hq
    rw [hsteps, List.filter_append, htail, List.getLast?_concat] at hlast
    exact ⟨q, tail, hparent, hstart, hsteps, by rw [htail, Option.some.inj hlast]⟩

/-! ## Order -/

/-- Sorted paths are in order. -/
theorem pairwise_mergeSort_notAfter (ps : List Path) :
    (ps.mergeSort notAfter).Pairwise fun p q => p.text ≤ q.text := by
  have htrans : ∀ p q r, notAfter p q = true → notAfter q r = true → notAfter p r = true := by
    intro p q r hpq hqr
    exact decide_eq_true (String.le_trans (of_decide_eq_true hpq) (of_decide_eq_true hqr))
  have htotal : ∀ p q, (notAfter p q || notAfter q p) = true := by
    intro p q
    simpa [notAfter] using String.le_total p.text q.text
  exact (List.pairwise_mergeSort htrans htotal ps).imp of_decide_eq_true

/-- Paths are equal if neither is after the other. -/
lemma eq_of_text_le {p q : Path} (hpq : p.text ≤ q.text) (hqp : q.text ≤ p.text) : p = q := by
  have htext := String.le_antisymm hpq hqp
  cases p
  cases q
  exact congrArg Path.mk htext

end Path

end CardTable
