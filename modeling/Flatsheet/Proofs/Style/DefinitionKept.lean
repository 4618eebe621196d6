import Flatsheet.Proofs.Style.Definition

/-!
# `Proofs.Style.DefinitionKept` — when a definition is left as it is

The declarations of a text are found with a stack of blocks, its references are converted line by line. The stack
knows each definition, the tracker of the lines only those that it can follow (`Followed`): what stands before the
definition on its line has to be directive statements, or blanks if the definition goes on behind the line. Such a
definition is in the result as it is (`hoist_keeps_definition`).

* `directiveLength?_append`, `statementsEnd?_append`: the readers of a line go over what they have read in the same
  way whatever follows
* `Tracker.Within`, kept by each line (`Within.advance`) and so by all of them (`Within.follow`): the tracker is inside
  a definition as long as more braces have been opened than closed
* `IsDefinition.within`: that holds behind each line break of a definition
-/

namespace Flatsheet.Style

open Text Check Mask

variable {t content v w r l u before : Text} {T : Tracker} {c : Char} {parens depth start i j k m n pos e : Nat} {interpolated : Bool}

/-! ## Directive statements -/

/-- What one byte does to the reader of a directive statement: the statement ends, with the byte or before it, or the
reader goes on. `marked` says that the next byte is an opening brace. -/
def directiveStep (parens depth : Nat) (interpolated : Bool) (c : Char) (marked : Bool) : Bool ⊕ (Nat × Nat × Bool) :=
  if interpolated then .inr (parens, depth, c ≠ '\x7d')
  else if c = '#' && marked then .inr (parens, depth, true)
  else if c = '(' then .inr (parens + 1, depth, false)
  else if c = ')' then .inr (parens - 1, depth, false)
  else if 0 < parens then .inr (parens, depth, false)
  else if c = ';' && depth = 0 then .inl true
  else if c = '\x7b' then .inr (parens, depth + 1, false)
  else if c = '\x7d' then
    if depth = 0 then .inl false else if depth = 1 then .inl true else .inr (parens, depth - 1, false)
  else .inr (parens, depth, false)

/-- The reader goes step by step. -/
theorem directiveLength?_cons (parens depth : Nat) (interpolated : Bool) (c : Char) (v : Text) :
    directiveLength? parens depth interpolated (c :: v) =
      match directiveStep parens depth interpolated c (v.head? = some '\x7b') with
      | .inl reached => some reached.toNat
      | .inr (p, d, b) => (directiveLength? p d b v).map (· + 1) := by
  rw [directiveLength?, directiveStep]
  -- both functions ask the same questions in the same order
  by_cases h₁ : interpolated = true
  · rw [if_pos h₁, if_pos h₁]
  rw [if_neg h₁, if_neg h₁]
  by_cases h₂ : (c = '#' && v.head? = some '\x7b') = true
  · rw [if_pos h₂, if_pos h₂]
  rw [if_neg h₂, if_neg h₂]
  by_cases h₃ : c = '('
  · rw [if_pos h₃, if_pos h₃]
  rw [if_neg h₃, if_neg h₃]
  by_cases h₄ : c = ')'
  · rw [if_pos h₄, if_pos h₄]
  rw [if_neg h₄, if_neg h₄]
  by_cases h₅ : 0 < parens
  · rw [if_pos h₅, if_pos h₅]
  rw [if_neg h₅, if_neg h₅]
  by_cases h₆ : (c = ';' && depth = 0) = true
  · rw [if_pos h₆, if_pos h₆]
    rfl
  rw [if_neg h₆, if_neg h₆]
  by_cases h₇ : c = '\x7b'
  · rw [if_pos h₇, if_pos h₇]
  rw [if_neg h₇, if_neg h₇]
  by_cases h₈ : c = '\x7d'
  · rw [if_pos h₈, if_pos h₈]
    by_cases h₉ : depth = 0
    · rw [if_pos h₉, if_pos h₉]
      rfl
    rw [if_neg h₉, if_neg h₉]
    by_cases h₀ : depth = 1
    · rw [if_pos h₀, if_pos h₀]
      rfl
    rw [if_neg h₀, if_neg h₀]
  rw [if_neg h₈, if_neg h₈]

/-- A byte other than a hash sign is read alike before any byte, and no statement ends at a hash sign. -/
theorem directiveStep_congr (parens depth : Nat) (interpolated : Bool) (h : c ≠ '#') (marked marked' : Bool) :
    directiveStep parens depth interpolated c marked = directiveStep parens depth interpolated c marked' := by
  rw [directiveStep, directiveStep, decide_eq_false h, Bool.false_and, Bool.false_and]

theorem directiveStep_hash (parens depth : Nat) (interpolated marked : Bool) :
    ∃ next, directiveStep parens depth interpolated '#' marked = .inr next := by
  cases interpolated with
  | true => exact ⟨_, rfl⟩
  | false =>
    cases marked with
    | true => exact ⟨_, rfl⟩
    | false =>
      by_cases hparens : 0 < parens
      · exact ⟨(parens, depth, false), if_pos hparens⟩
      · exact ⟨(parens, depth, false), if_neg hparens⟩

/-- **A byte in a text** is read as it is if more follows, but for a hash sign at the end, after which the reader goes
on. -/
theorem directiveStep_append (parens depth : Nat) (interpolated : Bool) (c : Char) (v r : Text) :
    directiveStep parens depth interpolated c ((v ++ r).head? = some '\x7b') =
        directiveStep parens depth interpolated c (v.head? = some '\x7b') ∨
      v = [] ∧ ∀ marked, ∃ next, directiveStep parens depth interpolated c marked = .inr next := by
  cases v with
  | nil =>
    by_cases hhash : c = '#'
    · subst hhash
      exact .inr ⟨rfl, directiveStep_hash parens depth interpolated⟩
    · exact .inl (directiveStep_congr parens depth interpolated hhash _ _)
  | cons x v => exact .inl rfl

/-- **A statement that ends in a text** ends there whatever follows. -/
theorem directiveLength?_append (h : directiveLength? parens depth interpolated v = some m) (r : Text) :
    directiveLength? parens depth interpolated (v ++ r) = some m := by
  induction v generalizing parens depth interpolated m with
  | nil => cases h
  | cons c v ih =>
    rw [directiveLength?_cons] at h
    rw [List.cons_append, directiveLength?_cons]
    rcases directiveStep_append parens depth interpolated c v r with hsame | ⟨rfl, hon⟩
    · rw [hsame]
      cases hnext : directiveStep parens depth interpolated c (v.head? = some '\x7b') with
      | inl a =>
        rw [hnext] at h
        exact h
      | inr next =>
        rw [hnext] at h
        obtain ⟨a, ha, rfl⟩ := Option.map_eq_some_iff.1 h
        exact congrArg (Option.map (· + 1)) (ih ha)
    · obtain ⟨next, hnext⟩ := hon false
      rw [List.head?_nil, decide_eq_false (by simp), hnext] at h
      cases h

/-- And one that ends there does so also if nothing follows. -/
theorem directiveLength?_of_append (h : directiveLength? parens depth interpolated (v ++ r) = some m)
    (hm : m < v.length) : directiveLength? parens depth interpolated v = some m := by
  induction v generalizing parens depth interpolated m with
  | nil => cases hm
  | cons c v ih =>
    rw [List.cons_append, directiveLength?_cons] at h
    rw [directiveLength?_cons]
    rcases directiveStep_append parens depth interpolated c v r with hsame | ⟨rfl, hon⟩
    · rw [hsame] at h
      cases hnext : directiveStep parens depth interpolated c (v.head? = some '\x7b') with
      | inl a =>
        rw [hnext] at h
        exact h
      | inr next =>
        rw [hnext] at h
        obtain ⟨a, ha, rfl⟩ := Option.map_eq_some_iff.1 h
        exact congrArg (Option.map (· + 1)) (ih ha (Nat.lt_of_succ_lt_succ hm))
    · obtain ⟨next, hnext⟩ := hon (([] ++ r).head? = some '\x7b')
      rw [hnext] at h
      obtain ⟨a, -, rfl⟩ := Option.map_eq_some_iff.1 h
      cases Nat.lt_of_succ_lt_succ hm

theorem directiveLength?_le (h : directiveLength? parens depth interpolated v = some m) : m ≤ v.length := by
  induction v generalizing parens depth interpolated m with
  | nil => cases h
  | cons c v ih =>
    rw [directiveLength?_cons] at h
    cases hnext : directiveStep parens depth interpolated c (v.head? = some '\x7b') with
    | inl a =>
      rw [hnext] at h
      cases h
      exact Nat.le_trans (Bool.toNat_le a) (Nat.succ_le_succ (Nat.zero_le _))
    | inr next =>
      rw [hnext] at h
      obtain ⟨a, ha, rfl⟩ := Option.map_eq_some_iff.1 h
      exact Nat.succ_le_succ (ih ha)

/-- A statement that ends nowhere in a text ends nowhere in the beginning of the text. -/
theorem directiveLength?_eq_none (h : ∀ m ∈ directiveLength? 0 0 false (v ++ r), (v ++ r).length ≤ m) (hr : r ≠ []) :
    directiveLength? 0 0 false v = none := by
  cases hends : directiveLength? 0 0 false v with
  | none => rfl
  | some m =>
    have hle := directiveLength?_le hends
    have hwhole := h m (directiveLength?_append hends r)
    have hpos := List.length_pos_iff.2 hr
    rw [List.length_append] at hwhole
    omega

/-! ## Directive statements of a line -/

theorem statementsEnd?_of_blank (h : trimLeft v = []) : statementsEnd? pos v = some (pos + v.length) := by
  rw [statementsEnd?]
  split
  · rfl
  · next hcons =>
    rw [h] at hcons
    cases hcons

theorem statementsEnd?_of_cons (h : trimLeft v = c :: w) : statementsEnd? pos v =
    if c ≠ '@' && c ≠ '%' then some (pos + spanLength isBlank v)
    else (directiveLength? 0 0 false (c :: w)).bind fun n =>
      statementsEnd? (pos + spanLength isBlank v + 1 + (n - 1)) (w.drop (n - 1)) := by
  rw [statementsEnd?]
  split
  · next hnil =>
    rw [h] at hnil
    cases hnil
  · next c' w' hcons =>
    rw [h] at hcons
    cases hcons
    dsimp only
    split
    · rfl
    · split
      · next hnone =>
        rw [hnone]
        rfl
      · next n hsome =>
        rw [hsome]
        rfl

/-- A line by its blanks and the rest. -/
theorem cut_of_trimLeft (h : trimLeft v = c :: w) : v = v.takeWhile isBlank ++ c :: w ∧
    v.length = spanLength isBlank v + 1 + w.length := by
  have hcut : v = v.takeWhile isBlank ++ c :: w := by
    rw [← h, trimLeft, List.takeWhile_append_dropWhile]
  refine ⟨hcut, ?_⟩
  have hlength := congrArg List.length hcut
  rw [List.length_append, List.length_cons] at hlength
  rw [spanLength]
  omega

/-- The reader of a line only goes on. -/
theorem le_statementsEnd? (h : statementsEnd? pos v = some e) : pos ≤ e := by
  generalize hlength : v.length = m
  induction m using Nat.strongRecOn generalizing pos v with
  | ind m ih =>
    cases htrim : trimLeft v with
    | nil =>
      rw [statementsEnd?_of_blank htrim] at h
      cases h
      exact Nat.le_add_right _ _
    | cons c w =>
      obtain ⟨-, hcount⟩ := cut_of_trimLeft htrim
      rw [statementsEnd?_of_cons htrim] at h
      split at h
      · cases h
        exact Nat.le_add_right _ _
      · obtain ⟨n, -, hn⟩ := Option.bind_eq_some_iff.1 h
        have hless : (w.drop (n - 1)).length < m := by
          rw [List.length_drop]
          omega
        have hle := ih _ hless hn rfl
        omega

/-- **Statements that fill a line** are passed over, and the reader goes on with what follows. -/
theorem statementsEnd?_append (h : statementsEnd? pos v = some (pos + v.length)) (r : Text) :
    statementsEnd? pos (v ++ r) = statementsEnd? (pos + v.length) r := by
  generalize hlength : v.length = m at h ⊢
  -- a statement is no more than a part of the line, so the induction is on the length
  induction m using Nat.strongRecOn generalizing pos v with
  | ind m ih =>
    cases htrim : trimLeft v with
    | nil =>
      have hblank : ∀ x ∈ v, isBlank x = true := by
        obtain ⟨blanks, hcut, hblank⟩ := eq_append_trimLeft v
        rw [htrim, List.append_nil] at hcut
        rw [hcut]
        exact hblank
      have hspan : spanLength isBlank (v ++ r) = m + spanLength isBlank r := by
        rw [spanLength, List.takeWhile_append_of_pos hblank, List.length_append, hlength]
        rfl
      have hsame : trimLeft (v ++ r) = trimLeft r := by
        rw [trimLeft, List.dropWhile_append_of_pos hblank]
        rfl
      cases hrest : trimLeft r with
      | nil =>
        rw [statementsEnd?_of_blank (hsame.trans hrest), statementsEnd?_of_blank hrest, List.length_append, hlength,
          Nat.add_assoc]
      | cons c w =>
        rw [statementsEnd?_of_cons (hsame.trans hrest), statementsEnd?_of_cons hrest, hspan, ← Nat.add_assoc pos]
    | cons c w =>
      obtain ⟨hcut, hcount⟩ := cut_of_trimLeft htrim
      rw [statementsEnd?_of_cons htrim] at h
      have hc := not_blank_of_trimLeft htrim
      have hsame : trimLeft (v ++ r) = c :: (w ++ r) := by
        have hshown : (trimLeft v).isEmpty = false := by rw [htrim]; rfl
        rw [trimLeft_append, hshown, htrim]
        rfl
      have hspan : spanLength isBlank (v ++ r) = spanLength isBlank v := by
        have hblank : ∀ x ∈ v.takeWhile isBlank, isBlank x = true := List.all_eq_true.1 List.all_takeWhile
        rw [spanLength, spanLength, hcut, List.append_assoc, List.takeWhile_append_of_pos hblank,
          List.takeWhile_append_of_pos hblank, List.cons_append, List.takeWhile_cons, List.takeWhile_cons, hc]
        rfl
      rw [statementsEnd?_of_cons hsame, hspan]
      split at h
      · have hend := Option.some.inj h
        omega
      · next hmark =>
        rw [if_neg hmark]
        -- behind the first statement the line is shorter
        obtain ⟨n, hn, hrest⟩ := Option.bind_eq_some_iff.1 h
        have hle := le_statementsEnd? hrest
        have hn' : n - 1 ≤ w.length := by omega
        have hdrop : (w ++ r).drop (n - 1) = w.drop (n - 1) ++ r := List.drop_append_of_le_length hn'
        have hplace : pos + spanLength isBlank v + 1 + (n - 1) + (w.drop (n - 1)).length = pos + m := by
          rw [List.length_drop]
          omega
        have hless : (w.drop (n - 1)).length < m := by
          rw [List.length_drop]
          omega
        have hgoesOn := ih _ hless rfl (hplace ▸ hrest)
        rw [← List.cons_append, directiveLength?_append hn r, Option.bind_some, hdrop, hgoesOn, hplace]

/-- **A statement that a line begins with** is passed over as far as the reader sees it. -/
theorem statementsEnd?_of_whole (hmark : v.head? = some '@')
    (hwhole : ∀ m ∈ directiveLength? 0 0 false v, v.length ≤ m) (h : statementsEnd? pos (v ++ r) = some e) :
    pos + v.length ≤ e := by
  obtain ⟨w, rfl⟩ := List.head?_eq_some_iff.1 hmark
  have htrim : trimLeft ('@' :: w ++ r) = '@' :: (w ++ r) := rfl
  rw [statementsEnd?_of_cons htrim, if_neg (by decide)] at h
  obtain ⟨n, hn, hrest⟩ := Option.bind_eq_some_iff.1 h
  have hlong : ('@' :: w).length ≤ n := by
    apply Classical.byContradiction
    intro hshort
    rw [← List.cons_append] at hn
    exact hshort (hwhole n (directiveLength?_of_append hn (Nat.lt_of_not_le hshort)))
  have hle := le_statementsEnd? hrest
  rw [List.length_cons] at hlong ⊢
  omega

/-! ## The tracker inside a definition -/

/-- **A piece of a definition can be counted**: it has no brace yet, or more have been opened than closed. -/
def Opened (v : Text) : Prop :=
  (v.count '\x7b' = 0 ∧ v.count '\x7d' = 0) ∨ v.count '\x7d' < v.count '\x7b'

/-- A byte that is not blank is not trimmed away. -/
theorem count_trim (hc : isBlank c = false) (t : Text) : (trim t).count c = t.count c := by
  have hnone : ∀ {blanks : Text}, (∀ x ∈ blanks, isBlank x = true) → blanks.count c = 0 := by
    intro blanks hblank
    rw [List.count_eq_zero]
    intro hmem
    rw [hblank c hmem] at hc
    cases hc
  obtain ⟨left, hleft, hblank⟩ := eq_append_trimLeft t
  obtain ⟨right, hright, hblank'⟩ := eq_trimRight_append (trimLeft t)
  have hcut : t = left ++ (trim t ++ right) := by
    rw [trim, ← hright]
    exact hleft
  conv =>
    rhs
    rw [hcut]
  rw [List.count_append, List.count_append, hnone hblank, hnone hblank', Nat.zero_add, Nat.add_zero]

namespace Tracker

/-- **The tracker is inside a definition** that has begun at a brace depth, behind the piece `v` of it. -/
structure Within (start : Nat) (v : Text) (T : Tracker) : Prop where
  depth : T.depth + v.count '\x7d' = start + v.count '\x7b'
  scope : ∃ isFunction entry awaited, T.scope = .definition isFunction entry awaited ∧ entry ≤ start ∧
    (awaited = true → v.count '\x7b' = 0) ∧ (awaited = false → entry < T.depth)

/-- **A line keeps it there.** -/
theorem Within.advance (h : T.Within start v) (hopened : Opened (v ++ l)) : (T.advance l).Within start (v ++ l) := by
  obtain ⟨hdepth, isFunction, entry, awaited, hscope, hentry, hawaited, hinside⟩ := h
  have hopens : (trim l).count '\x7b' = l.count '\x7b' := count_trim rfl l
  have hcloses : (trim l).count '\x7d' = l.count '\x7d' := count_trim rfl l
  rw [Opened, List.count_append, List.count_append] at hopened
  unfold Tracker.advance
  simp only [hscope, hopens, hcloses]
  split
  · next hwaiting =>
    simp only [Bool.and_eq_true, decide_eq_true_eq] at hwaiting
    have hnone := hawaited hwaiting.1
    refine ⟨?_, isFunction, entry, true, rfl, hentry, ?_, nofun⟩
    · rw [List.count_append, List.count_append]
      dsimp only
      omega
    · intro _
      rw [List.count_append, hnone, hwaiting.2]
  · next hwaiting =>
    simp only [Bool.and_eq_true, decide_eq_true_eq, not_and] at hwaiting
    -- the brace that was awaited is on this line, or the definition was open already
    have hdeeper : entry < T.depth + l.count '\x7b' - l.count '\x7d' := by
      cases awaited with
      | true =>
        have hnone := hawaited rfl
        have hsome := hwaiting rfl
        omega
      | false =>
        have hlt := hinside rfl
        omega
    rw [if_neg (Nat.not_le.2 hdeeper)]
    refine ⟨?_, isFunction, entry, false, rfl, hentry, nofun, fun _ => hdeeper⟩
    rw [List.count_append, List.count_append]
    dsimp only
    omega

theorem Within.congr (h : T.Within start v) (hopens : w.count '\x7b' = v.count '\x7b')
    (hcloses : w.count '\x7d' = v.count '\x7d') : T.Within start w := by
  obtain ⟨hdepth, isFunction, entry, awaited, hscope, hentry, hawaited, hinside⟩ := h
  refine ⟨?_, isFunction, entry, awaited, hscope, hentry, ?_, hinside⟩
  · rw [hopens, hcloses]
    exact hdepth
  · rw [hopens]
    exact hawaited

theorem count_ended (hc : c ≠ '\n') : (ended [l]).count c = l.count c := by
  rw [ended_singleton, List.count_append, List.count_singleton]
  simp [hc.symm]

/-- **So do lines.** -/
theorem Within.follow {ls : List Text} (h : T.Within start v)
    (hopened : ∀ ls' l, ls' ++ [l] <+: ls → Opened (v ++ ended (ls' ++ [l]))) :
    (T.follow ls).Within start (v ++ ended ls) := by
  induction ls using List.reverseRecOn with
  | nil =>
    rw [ended, List.flatMap_nil, List.append_nil]
    exact h
  | append_singleton ls l ih =>
    have hbefore := ih fun ls' l' hleads => hopened ls' l' (hleads.trans (List.prefix_append _ _))
    have hhere := hopened ls l List.prefix_rfl
    have hcount : ∀ c, c ≠ '\n' → (v ++ ended (ls ++ [l])).count c = (v ++ ended ls ++ l).count c := by
      intro c hc
      rw [ended_append, ← List.append_assoc, List.count_append, count_ended hc]
      exact List.count_append.symm
    have hopens := hcount '\x7b' (by decide)
    have hcloses := hcount '\x7d' (by decide)
    have hline : Opened (v ++ ended ls ++ l) := by
      rw [Opened, ← hopens, ← hcloses]
      exact hhere
    rw [Tracker.follow, List.foldl_append]
    exact (hbefore.advance hline).congr hopens hcloses

/-- A definition that the tracker knows to be open began at a lower depth. -/
theorem entry_lt_of_advance {isFunction : Bool} {entry : Nat}
    (h : (T.advance l).scope = .definition isFunction entry false) : entry < (T.advance l).depth := by
  -- a definition is open after the line only where the depth has been compared with that of its beginning
  revert h
  unfold Tracker.advance
  dsimp only
  split
  · split
    · split
      · next hdeeper =>
        intro h
        cases h
        exact hdeeper
      · split
        · intro h
          cases h
        · intro h
          cases h
    · split
      · intro h
        cases h
      · intro h
        cases h
  · split
    · intro h
      cases h
    · split
      · intro h
        cases h
      · next hdeeper =>
        intro h
        cases h
        exact Nat.lt_of_not_le hdeeper
  · intro h
    dsimp only at h
    split at h <;> cases h

theorem entry_lt_of_follow {isFunction : Bool} {entry : Nat} {ls : List Text}
    (h : (({} : Tracker).follow ls).scope = .definition isFunction entry false) :
    entry < (({} : Tracker).follow ls).depth := by
  rcases List.eq_nil_or_concat ls with rfl | ⟨ls, l, rfl⟩
  · cases h
  · rw [List.concat_eq_append, Tracker.follow, List.foldl_append] at h ⊢
    exact entry_lt_of_advance h

/-- **The tracker is ready for a definition**: it is in no map literal, and if it awaits the body of an earlier
definition, not too many braces have been closed since. -/
def Ready (T : Tracker) : Prop :=
  match T.scope with
  | .stylesheet => True
  | .definition _ entry awaited => awaited = true → entry ≤ T.depth
  | .mapLiteral _ => False

instance (T : Tracker) : Decidable T.Ready := by
  unfold Ready
  split <;> infer_instance

/-- **On the line with which a definition begins** the tracker comes inside. -/
theorem Ready.begins (h : T.Ready)
    (hentry : ∀ isFunction entry, T.scope = .definition isFunction entry false → entry < T.depth)
    (hblank : ∀ x ∈ before, isBlank x = true)
    (hmark : (startsWith (trim (before ++ l)) "@mixin".toList || startsWith (trim (before ++ l)) "@function".toList) = true)
    (hruns : directiveLength? 0 0 false (trim (before ++ l)) = none) (hopened : Opened l) :
    (T.advance (before ++ l)).Within T.depth l := by
  have hcount : ∀ {c}, isBlank c = false → (before ++ l).count c = l.count c := by
    intro c hc
    have hnone : before.count c = 0 := by
      rw [List.count_eq_zero]
      intro hmem
      rw [hblank c hmem] at hc
      cases hc
    rw [List.count_append, hnone, Nat.zero_add]
  have hopens : (before ++ l).count '\x7b' = l.count '\x7b' := hcount rfl
  have hcloses : (before ++ l).count '\x7d' = l.count '\x7d' := hcount rfl
  unfold Ready at h
  split at h
  · next hscope =>
    have hends : (directiveEnd? (trim (before ++ l)) 0).isNone = true := by
      rw [directiveEnd?, List.drop_zero, hruns]
      rfl
    have htrimmed : (trim (before ++ l)).count '\x7b' = (before ++ l).count '\x7b' := count_trim rfl _
    have htrimmed' : (trim (before ++ l)).count '\x7d' = (before ++ l).count '\x7d' := count_trim rfl _
    rw [Opened] at hopened
    unfold Tracker.advance
    simp only [hscope, htrimmed, htrimmed', hopens, hcloses]
    rw [hmark, hends, Bool.true_and, if_pos rfl]
    split
    · next hdeeper =>
      refine ⟨?_, _, T.depth, false, rfl, Nat.le_refl _, nofun, fun _ => hdeeper⟩
      dsimp only
      omega
    · next hdeeper =>
      -- a line without braces awaits the body
      have hnone : l.count '\x7b' = 0 ∧ l.count '\x7d' = 0 := by omega
      rw [if_pos hnone.1]
      refine ⟨?_, _, T.depth, true, rfl, Nat.le_refl _, fun _ => hnone.1, nofun⟩
      dsimp only
      omega
  · next isFunction entry awaited hscope =>
    have hstart : T.Within T.depth [] := by
      refine ⟨rfl, isFunction, entry, awaited, hscope, ?_, fun _ => rfl, ?_⟩
      · cases awaited with
        | true => exact h rfl
        | false => exact Nat.le_of_lt (hentry _ _ hscope)
      · rintro rfl
        exact hentry _ _ hscope
    have hline : Opened ([] ++ (before ++ l)) := by
      rw [List.nil_append, Opened, hopens, hcloses]
      exact hopened
    exact (hstart.advance hline).congr hopens.symm hcloses.symm
  · exact h.elim

end Tracker

/-- On a line that shows something conversion starts behind the statements that it begins with. -/
theorem Tracker.statementsEnd?_of_convertFrom? (hmem : c ∈ l) (hc : isBlank c = false)
    (h : e ∈ T.convertFrom? l) : statementsEnd? 0 l = some e := by
  have hshown : (trim l).isEmpty = false := by
    have hcount := count_trim hc l
    have hpos := List.count_pos_iff.2 hmem
    cases hempty : trim l with
    | nil =>
      rw [hempty, List.count_nil] at hcount
      omega
    | cons x r => rfl
  rw [Option.mem_def, Tracker.convertFrom?] at h
  split at h
  · cases h
  · rw [hshown, if_neg (by decide)] at h
    split at h
    · cases h
    · exact h

theorem Tracker.convertFrom?_eq_none (h : T.Within start v) (l : Text) : T.convertFrom? l = none := by
  obtain ⟨-, isFunction, entry, awaited, hscope, -⟩ := h
  rw [Tracker.convertFrom?, hscope, if_pos (by simp)]

/-! ## Definitions on lines -/

/-- A word that begins a text does not reach over a byte that is not in it. -/
theorem prefix_of_append {word : Text} (h : word <+: v ++ r) (hr : ∀ x, r.head? = some x → x ∉ word) : word <+: v := by
  rcases List.prefix_or_prefix_of_prefix h (List.prefix_append v r) with hleads | ⟨s, rfl⟩
  · exact hleads
  · rw [List.prefix_append_right_inj] at h
    cases s with
    | nil => simp
    | cons x s =>
      obtain ⟨q, rfl⟩ := h
      exact absurd (List.mem_append_right _ List.mem_cons_self) (hr x rfl)

/-- What the code mask shows of what is left before a definition. -/
def shownBefore (t : Text) (n : Nat) : Text := codeMask (leftBefore t (place t n).cursor.pos)

/-- **A definition on several lines can be followed** if it begins its line, at a place for which the tracker is ready
and which is in no interpolation, and if in the lines above the brace that opens its body there is no other brace. -/
structure OnLines (t : Text) (n j : Nat) : Prop where
  first : ∀ x ∈ lastLine (shownBefore t n), isBlank x = true
  ready : (trackerAt (shownBefore t n) (shownBefore t n).length).Ready
  outside : (place t n).scan.blocks.head? ≠ some .interpolation
  head : ∀ l ∈ (lines (shownUpTo t n j)).dropLast, '\x7b' ∉ l ∧ '\x7d' ∉ l

/-- **A definition can be followed** line by line: what stands before it on its line are directive statements that end
there, the definition is one directive statement, and if it is on several lines it can be followed there. -/
structure Followed (t : Text) (n j k : Nat) : Prop where
  reached : statementsEnd? 0 (lastLine (shownBefore t n)) = some (lastLine (shownBefore t n)).length
  whole : ∀ m ∈ directiveLength? 0 0 false (shownUpTo t n k), (shownUpTo t n k).length ≤ m
  lines : '\n' ∈ shownUpTo t n k → OnLines t n j

instance (t : Text) (n j : Nat) : Decidable (OnLines t n j) :=
  decidable_of_iff
    ((lastLine (shownBefore t n)).all isBlank = true ∧
      (trackerAt (shownBefore t n) (shownBefore t n).length).Ready ∧
      (place t n).scan.blocks.head? ≠ some .interpolation ∧
      ∀ l ∈ (Text.lines (shownUpTo t n j)).dropLast, '\x7b' ∉ l ∧ '\x7d' ∉ l)
    (by
      rw [List.all_eq_true]
      exact ⟨fun ⟨h₁, h₂, h₃, h₄⟩ => ⟨h₁, h₂, h₃, h₄⟩, fun ⟨h₁, h₂, h₃, h₄⟩ => ⟨h₁, h₂, h₃, h₄⟩⟩)

instance (t : Text) (n j k : Nat) : Decidable (Followed t n j k) :=
  decidable_of_iff
    (statementsEnd? 0 (lastLine (shownBefore t n)) = some (lastLine (shownBefore t n)).length ∧
      (∀ m ∈ directiveLength? 0 0 false (shownUpTo t n k), (shownUpTo t n k).length ≤ m) ∧
      ('\n' ∈ shownUpTo t n k → OnLines t n j))
    ⟨fun ⟨h₁, h₂, h₃⟩ => ⟨h₁, h₂, h₃⟩, fun ⟨h₁, h₂, h₃⟩ => ⟨h₁, h₂, h₃⟩⟩

namespace IsDefinition

/-- **At each line break of a definition** its braces can be counted. -/
theorem opened (h : IsDefinition t n j k) (hlines : OnLines t n j) {ls : List Text}
    (hleads : ended (ls ++ [l]) <+: shownUpTo t n k) (hnone : ∀ l' ∈ ls ++ [l], '\n' ∉ l') :
    Opened (ended (ls ++ [l])) := by
  have horder := h.order
  have hlength := hleads.length_le
  rw [h.length_shownUpTo (by omega) (Nat.le_refl k)] at hlength
  have htake : ∀ {i}, i ≤ k → i = n + (ended (ls ++ [l])).length → shownUpTo t n i = ended (ls ++ [l]) := by
    intro i hi heq
    rw [h.shownUpTo_eq_take (by omega) hi, heq, Nat.add_sub_cancel_left]
    exact (List.prefix_iff_eq_take.1 hleads).symm
  rcases Nat.lt_or_ge j (n + (ended (ls ++ [l])).length) with hbody | hhead
  · rcases Nat.lt_or_eq_of_le (Nat.add_le_of_le_sub' (by omega) hlength) with hinside | hend
    · have hcount := h.count_lt hlines.outside hbody hinside
      rw [htake (Nat.le_of_lt hinside) rfl] at hcount
      exact .inr hcount
    · -- the definition does not end with a line feed
      have hlast := h.getLast?_shownUpTo
      rw [htake (Nat.le_refl k) hend.symm, ended_concat, ← List.append_assoc, List.getLast?_concat] at hlast
      cases hlast
  · -- the lines are those of the head
    have hshorter : ended (ls ++ [l]) <+: shownUpTo t n j := by
      rw [List.prefix_iff_eq_take] at hleads ⊢
      rw [h.shownUpTo_eq_take (Nat.le_of_lt horder.1) (Nat.le_of_lt horder.2), List.take_take, Nat.min_eq_left (by omega)]
      exact hleads
    obtain ⟨rest, hrest⟩ := hshorter
    have hhead : ∀ l' ∈ ls ++ [l], '\x7b' ∉ l' ∧ '\x7d' ∉ l' := by
      intro l' hl'
      apply hlines.head
      rw [← hrest, lines_ended hnone, List.dropLast_append_of_ne_nil (lines_ne_nil rest)]
      exact List.mem_append_left _ hl'
    have hcount : ∀ c, c ≠ '\n' → (∀ l' ∈ ls ++ [l], c ∉ l') → (ended (ls ++ [l])).count c = 0 := by
      intro c hc hfree
      rw [List.count_eq_zero, ended, List.mem_flatMap]
      rintro ⟨l', hl', hmem⟩
      rcases List.mem_append.1 hmem with hmem | hmem
      · exact hfree l' hl' hmem
      · exact hc (List.mem_singleton.1 hmem)
    exact .inl ⟨hcount _ (by decide) fun l' hl' => (hhead l' hl').1, hcount _ (by decide) fun l' hl' => (hhead l' hl').2⟩

/-- The word that a definition begins with is on its first line, and is not trimmed away. -/
theorem begins_line (h : IsDefinition t n j k) (hblank : ∀ x ∈ before, isBlank x = true)
    (hline : shownUpTo t n k = l ++ '\n' :: r) :
    (startsWith (trim (before ++ l)) "@mixin".toList || startsWith (trim (before ++ l)) "@function".toList) = true ∧
      trim (before ++ l) = trimRight l := by
  obtain ⟨word, hword, q, hq⟩ := h.begins_with
  have hbytes : word.head? = some '@' ∧ IsWord word := by
    rcases List.mem_cons.1 hword with rfl | hword
    · decide
    · rw [List.mem_singleton.1 hword]
      decide
  have hshown : shownUpTo t n k <+: (codeMask t).drop (place t n).cursor.pos := List.take_prefix _ _
  rw [hline, hq] at hshown
  obtain ⟨rest, hrest⟩ := hshown
  -- the word has no line feed in it
  have hfirst : word <+: l := by
    have hall : word <+: l ++ ('\n' :: (r ++ rest)) := by
      rw [← List.cons_append, ← List.append_assoc, hrest]
      exact List.prefix_append word q
    apply prefix_of_append hall
    rintro x ⟨⟩ hmem
    cases hbytes.2 '\n' hmem
  -- and no blank at its end
  have htrimmed : word <+: trimRight l := by
    obtain ⟨blanks, hcut, hblanks⟩ := eq_trimRight_append l
    rw [hcut] at hfirst
    apply prefix_of_append hfirst
    intro x hx hmem
    have hblank' := hblanks x (List.mem_of_head? hx)
    rw [hbytes.2 x hmem] at hblank'
    cases hblank'
  have htrim : trim (before ++ l) = trimRight l := by
    obtain ⟨w, hw⟩ := hfirst
    obtain ⟨x, word', rfl⟩ : ∃ x word', word = x :: word' := by
      cases word with
      | nil => cases hbytes.1
      | cons x word' => exact ⟨x, word', rfl⟩
    have hx := hbytes.2 x List.mem_cons_self
    rw [trim, ← hw, trimLeft, List.dropWhile_append_of_pos hblank, List.cons_append, List.dropWhile_cons, hx]
    rfl
  refine ⟨?_, htrim⟩
  rw [htrim, Bool.or_eq_true]
  rcases List.mem_cons.1 hword with rfl | hword
  · exact .inl (List.isPrefixOf_iff_prefix.2 htrimmed)
  · rw [List.mem_singleton.1 hword] at htrimmed
    exact .inr (List.isPrefixOf_iff_prefix.2 htrimmed)

/-- **Behind a line break of a definition** the tracker is inside. -/
theorem within (h : IsDefinition t n j k) (hf : Followed t n j k) (hlines : OnLines t n j) {ls : List Text}
    (hleads : ended (l :: ls) <+: shownUpTo t n k) (hnone : ∀ l' ∈ l :: ls, '\n' ∉ l') :
    (((trackerAt (shownBefore t n) (shownBefore t n).length).advance (lastLine (shownBefore t n) ++ l)).follow ls).Within
      (trackerAt (shownBefore t n) (shownBefore t n).length).depth (ended (l :: ls)) := by
  obtain ⟨r, hr⟩ := hleads
  have hline : shownUpTo t n k = l ++ '\n' :: (ended ls ++ r) := by
    rw [← hr, ended_cons, List.append_assoc, List.cons_append]
  obtain ⟨hmark, htrim⟩ := h.begins_line hlines.first hline
  -- the definition is longer than its first line
  have hruns : directiveLength? 0 0 false (trim (lastLine (shownBefore t n) ++ l)) = none := by
    obtain ⟨blanks, hcut, -⟩ := eq_trimRight_append l
    have hwhole := hf.whole
    rw [hline, hcut, List.append_assoc] at hwhole
    rw [htrim]
    exact directiveLength?_eq_none hwhole (by simp)
  -- each line break of the definition is one at which its braces can be counted
  have hopened : ∀ ls' l', ls' ++ [l'] <+: l :: ls → Opened (ended (ls' ++ [l'])) := by
    rintro ls' l' ⟨q, hq⟩
    apply h.opened hlines
    · rw [← hr, ← hq, ended_append _ q, List.append_assoc]
      exact List.prefix_append _ _
    · intro l'' hl''
      apply hnone
      rw [← hq]
      exact List.mem_append_left q hl''
  have hopens : (ended [l]).count '\x7b' = l.count '\x7b' := Tracker.count_ended (by decide)
  have hcloses : (ended [l]).count '\x7d' = l.count '\x7d' := Tracker.count_ended (by decide)
  have hfirst : Opened l := by
    have hone := hopened [] l ⟨ls, rfl⟩
    rw [Opened, List.nil_append, hopens, hcloses] at hone
    exact hone
  have hbegins := hlines.ready.begins (fun _ _ => Tracker.entry_lt_of_follow) hlines.first hmark hruns hfirst
  rw [← List.singleton_append, ended_append]
  apply (hbegins.congr hopens hcloses).follow
  intro ls' l' hleads
  rw [← ended_append, List.singleton_append, ← List.cons_append]
  exact hopened (l :: ls') l' (List.cons_prefix_cons.2 ⟨rfl, hleads⟩)

/-- The code mask of what is left shows the definition. -/
theorem codeMask_remainder (h : IsDefinition t n j k) :
    ∃ r, codeMask (remainder t) = shownBefore t n ++ (shownUpTo t n k ++ r) := by
  obtain ⟨hclear, hend⟩ := h.clear
  obtain ⟨hfront, c, hrem⟩ := hclear.remainder_eq
  have hle := Nat.le_of_lt hclear.inside.1
  have hrests := rests_slice hclear.rests hend hle
  refine ⟨codeMask c, ?_⟩
  rw [hrem, List.append_assoc, codeMask_append (hfront.joins _), codeMask_append (hrests.joins _),
    codeMask_slice hclear.rests hend hle hclear.inside.2]
  rfl

/-- **On its first line** conversion does not start before the definition ends. -/
theorem start_of_line (h : IsDefinition t n j k) (hf : Followed t n j k)
    (he : e ∈ T.convertFrom? (lastLine (shownBefore t n) ++ Text.firstLine (shownUpTo t n k ++ r))) :
    (lastLine (shownBefore t n)).length + (shownUpTo t n k).length ≤ e := by
  obtain ⟨w, hw⟩ := List.head?_eq_some_iff.1 h.head?_shownUpTo
  have hshown : '@' ∈ lastLine (shownBefore t n) ++ Text.firstLine (shownUpTo t n k ++ r) := by
    rw [hw]
    exact List.mem_append_right _ List.mem_cons_self
  have hreached : statementsEnd? 0 (lastLine (shownBefore t n)) = some (0 + (lastLine (shownBefore t n)).length) := by
    rw [Nat.zero_add]
    exact hf.reached
  have hend := Tracker.statementsEnd?_of_convertFrom? hshown rfl he
  rw [statementsEnd?_append hreached, Nat.zero_add] at hend
  obtain ⟨hfirst, hcut⟩ := firstLine_spec (shownUpTo t n k)
  by_cases hbreak : '\n' ∈ shownUpTo t n k
  · -- the definition goes on behind the line, so the reader comes to no end on it
    exfalso
    have hlines : shownUpTo t n k = Text.firstLine (shownUpTo t n k) ++
        '\n' :: (shownUpTo t n k).drop ((Text.firstLine (shownUpTo t n k)).length + 1) := by
      rcases hcut with ⟨hall, -⟩ | hcut
      · rw [hall] at hbreak
        exact absurd hbreak hfirst
      · exact hcut
    have hwhole := hf.whole
    rw [hlines] at hwhole
    have hnone := directiveLength?_eq_none hwhole (List.cons_ne_nil _ _)
    have hline : Text.firstLine (shownUpTo t n k ++ r) = Text.firstLine (shownUpTo t n k) := by
      conv =>
        lhs
        rw [hlines, List.append_assoc]
      exact firstLine_append hfirst (.inr ⟨_, rfl⟩)
    have hmark : ∃ w', Text.firstLine (shownUpTo t n k) = '@' :: w' := by
      rw [hw]
      exact ⟨_, rfl⟩
    obtain ⟨w', hw'⟩ := hmark
    have htrim : trimLeft ('@' :: w') = '@' :: w' := rfl
    rw [hw'] at hnone
    rw [hline, hw', statementsEnd?_of_cons htrim, if_neg (by decide), hnone] at hend
    cases hend
  · rw [firstLine_append_left hbreak] at hend
    exact statementsEnd?_of_whole h.head?_shownUpTo hf.whole hend

/-- **No reference in the definition is converted.** -/
theorem not_converts (h : IsDefinition t n j k) (hf : Followed t n j k) (hi : i < (shownUpTo t n k).length) :
    converts (remainder t) ((shownBefore t n).length + i) = false := by
  obtain ⟨r, hmask⟩ := h.codeMask_remainder
  obtain ⟨v, w, hcut, rfl⟩ : ∃ v w, shownUpTo t n k = v ++ w ∧ i = v.length :=
    ⟨_, _, (List.take_append_drop i _).symm, (List.length_take_of_le (Nat.le_of_lt hi)).symm⟩
  have hmask' : codeMask (remainder t) = shownBefore t n ++ (v ++ (w ++ r)) := by
    rw [hmask, hcut, List.append_assoc]
  obtain ⟨ls, hv, hls, hlast, -⟩ := exists_lastLine v
  cases ls with
  | nil =>
    -- the place is on the line with which the definition begins
    rw [ended, List.flatMap_nil, List.nil_append] at hv
    rw [← hv] at hlast
    obtain ⟨line, hconverts⟩ := converts_here hmask' hlast
    rw [hconverts]
    apply Tracker.converts_eq_false
    intro e he
    rw [← List.append_assoc, ← hcut] at he
    have hle := h.start_of_line hf he
    omega
  | cons l ls =>
    -- the place is behind a line break of the definition
    generalize lastLine v = u at hv hlast
    subst hv
    have hleads : ended (l :: ls) <+: shownUpTo t n k := by
      rw [hcut, List.append_assoc]
      exact List.prefix_append _ _
    have hbreak : '\n' ∈ shownUpTo t n k := by
      apply hleads.mem
      rw [ended_cons]
      exact List.mem_append_right _ List.mem_cons_self
    obtain ⟨line, code, hconverts⟩ := converts_behind hmask' hls hlast
    rw [hconverts]
    apply Tracker.converts_eq_false
    intro e he
    rw [Tracker.convertFrom?_eq_none (h.within hf (hf.lines hbreak) hleads hls)] at he
    cases he

end IsDefinition

/-- **A definition stays as it is.** No declaration is cut out of it; and if it can be followed line by line, no
reference in it is converted, so it is in the result byte by byte, behind what comes of the text before it. -/
theorem hoist_keeps_definition (h : IsDefinition content n j k) :
    (∃ back, remainder content = leftBefore content (place content n).cursor.pos ++
      slice content (place content n).cursor.pos (place content k).cursor.pos ++ back) ∧
    (Followed content n j k → ∃ back, (hoist content).content = hoistedBefore content (place content n).cursor.pos ++
      slice content (place content n).cursor.pos (place content k).cursor.pos ++ back) := by
  obtain ⟨hclear, -⟩ := h.clear
  refine ⟨hclear.remainder_eq.2, ?_⟩
  intro hf
  apply hclear.hoist_keeps
  intro e he
  obtain ⟨r, hmask⟩ := h.codeMask_remainder
  have hfront : (shownBefore content n).length = (leftBefore content (place content n).cursor.pos).length :=
    length_codeMask _
  have hlength : (shownUpTo content n k).length =
      (place content k).cursor.pos - (place content n).cursor.pos := by
    have hinside := hclear.inside.2
    rw [← length_codeMask] at hinside
    exact length_slice hinside
  rw [← hfront, ← hlength]
  -- a usage before the definition ends before it, and one behind its beginning is not in it
  rcases Nat.lt_or_ge e.1.start (shownBefore content n).length with hbefore | hbehind
  · refine .inl (stop_le_of_usage he hbefore ⟨'@', ?_, rfl⟩)
    obtain ⟨w, hw⟩ := List.head?_eq_some_iff.1 h.head?_shownUpTo
    rw [hmask, List.getElem?_append_right (Nat.le_refl _), Nat.sub_self, hw]
    rfl
  · right
    apply Classical.byContradiction
    intro hshort
    obtain ⟨i, hi⟩ : ∃ i, e.1.start = (shownBefore content n).length + i := ⟨_, (Nat.add_sub_cancel' hbehind).symm⟩
    obtain ⟨-, -, -, hconverts⟩ := mem_usages_iff.1 he
    rw [hi, h.not_converts hf (by omega)] at hconverts
    cases hconverts

/-- A sheet with a definition over several lines and one behind an include. -/
def helperSheet : Text :=
  "$p: 1px;\n@mixin m($x)\n\x7b\n  a: $x;\n\x7d\n@include c; @function f($y) \x7b @return $y; \x7d\n".toList

theorem helperSheet_kept :
    (∃ back, (hoist helperSheet).content = ":root \x7b\n  --p: 1px;\n\x7d\n\n".toList ++
      "@mixin m($x)\n\x7b\n  a: $x;\n\x7d".toList ++ back) ∧
    ∃ back, (hoist helperSheet).content =
      ":root \x7b\n  --p: 1px;\n\x7d\n\n@mixin m($x)\n\x7b\n  a: $x;\n\x7d\n@include c; ".toList ++
        "@function f($y) \x7b @return $y; \x7d".toList ++ back := by
  have hmixin : IsDefinition helperSheet 2 15 27 := by decide +kernel
  have hfunction : IsDefinition helperSheet 40 56 71 := by decide +kernel
  refine ⟨?_, ?_⟩
  · obtain ⟨back, hback⟩ := (hoist_keeps_definition hmixin).2 (by decide +kernel)
    have hfront : hoistedBefore helperSheet (place helperSheet 2).cursor.pos =
        ":root \x7b\n  --p: 1px;\n\x7d\n\n".toList := by decide +kernel
    have hkept : slice helperSheet (place helperSheet 2).cursor.pos (place helperSheet 27).cursor.pos =
        "@mixin m($x)\n\x7b\n  a: $x;\n\x7d".toList := by decide +kernel
    rw [hfront, hkept] at hback
    exact ⟨back, hback⟩
  · obtain ⟨back, hback⟩ := (hoist_keeps_definition hfunction).2 (by decide +kernel)
    have hfront : hoistedBefore helperSheet (place helperSheet 40).cursor.pos =
        ":root \x7b\n  --p: 1px;\n\x7d\n\n@mixin m($x)\n\x7b\n  a: $x;\n\x7d\n@include c; ".toList := by
      decide +kernel
    have hkept : slice helperSheet (place helperSheet 40).cursor.pos (place helperSheet 71).cursor.pos =
        "@function f($y) \x7b @return $y; \x7d".toList := by decide +kernel
    rw [hfront, hkept] at hback
    exact ⟨back, hback⟩

/-- A sheet with a definition behind a rule on the same line. -/
def sameLine : Text := ".a \x7b b: c; \x7d @mixin m($x) \x7b color: $x; \x7d\n".toList

/-- **A definition behind something else on its line is changed**: its parameter is converted, where it is declared and
where it is used. -/
theorem parameter_converted : IsDefinition sameLine 13 26 40 ∧
    ¬ slice sameLine (place sameLine 13).cursor.pos (place sameLine 40).cursor.pos <:+: (hoist sameLine).content ∧
    (hoist sameLine).content =
      ".a \x7b b: c; \x7d @mixin m(var(--x)) \x7b color: var(--x); \x7d\n".toList := by
  refine ⟨?_, ?_, ?_⟩ <;> decide +kernel

end Flatsheet.Style
