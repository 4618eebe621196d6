import Flatsheet.Proofs.Check.Splice

/-!
# `Proofs.Check.Partners` — which braces have a partner

The braces that are left in a structural mask are a word in two letters. It is balanced if it is one of the grammar
`BracketWord`, and a closing brace has a partner if there is an opening one before it with a balanced word in between.
Neither says anything about depths.

The brace check counts. What ties the two together is `Nested`: a text in which some blocks are open is a text in which
none is, followed for each open block by its brace and what is balanced behind it. A byte takes one such text to another
(`Nested.concat`), so the depth of a text without an excess says exactly how it is made up
(`levelAfter?_eq_some_iff_nested`).

* `bracketWord_iff`: the braces are a balanced word exactly if the depth is zero at the end.
* `firstExcess?_spec`: the first excess is the first closing brace without a partner.
* `brace_check_exact`: what the check reports.
-/

namespace Flatsheet.Check

open Text

variable {c : Char} {t p u w : Text} {d i j k : Nat}

/-! ## Bracket words -/

/-- The braces of a text, in order. -/
def braces (w : Text) : Text := w.filter fun c => c = '{' || c = '}'

/-- **A balanced bracket word**: nothing, or a block and what comes behind it. -/
inductive BracketWord : Text → Prop
  | nil : BracketWord []
  | block {u w : Text} (inside : BracketWord u) (behind : BracketWord w) : BracketWord ('{' :: u ++ '}' :: w)

@[simp] theorem braces_nil : braces [] = [] := rfl

@[simp] theorem braces_append (u w : Text) : braces (u ++ w) = braces u ++ braces w := List.filter_append u w

@[simp] theorem braces_open (w : Text) : braces ('{' :: w) = '{' :: braces w := rfl

@[simp] theorem braces_close (w : Text) : braces ('}' :: w) = '}' :: braces w := rfl

theorem braces_of_ne (hopen : c ≠ '{') (hclose : c ≠ '}') (w : Text) : braces (c :: w) = braces w := by
  simp [braces, hopen, hclose]

theorem BracketWord.append (hu : BracketWord u) (hw : BracketWord w) : BracketWord (u ++ w) := by
  induction hu with
  | nil => exact hw
  | @block inner behind inside _ _ ih =>
    have hcut : ('{' :: inner ++ '}' :: behind) ++ w = '{' :: inner ++ '}' :: (behind ++ w) := by simp
    rw [hcut]
    exact .block inside ih

/-! ## Depths -/

@[simp] theorem levelAfter?_open (d : Nat) (w : Text) : levelAfter? d ('{' :: w) = levelAfter? (d + 1) w := rfl

@[simp] theorem levelAfter?_close (d : Nat) (w : Text) : levelAfter? (d + 1) ('}' :: w) = levelAfter? d w := rfl

@[simp] theorem levelAfter?_excess (w : Text) : levelAfter? 0 ('}' :: w) = none := rfl

theorem levelAfter?_of_ne (hopen : c ≠ '{') (hclose : c ≠ '}') (d : Nat) (w : Text) :
    levelAfter? d (c :: w) = levelAfter? d w := by
  rw [levelAfter?, if_neg hopen, if_neg hclose]

/-- Only braces count. -/
theorem levelAfter?_braces (d : Nat) (w : Text) : levelAfter? d (braces w) = levelAfter? d w := by
  induction w generalizing d with
  | nil => rfl
  | cons c r ih =>
    by_cases hopen : c = '{'
    · subst hopen
      exact ih (d + 1)
    · by_cases hclose : c = '}'
      · subst hclose
        cases d with
        | zero => rfl
        | succ d => exact ih d
      · rw [braces_of_ne hopen hclose, levelAfter?_of_ne hopen hclose, ih]

/-- A balanced word leaves the depth as it is. -/
theorem BracketWord.level (h : BracketWord w) (d : Nat) : levelAfter? d w = some d := by
  induction h generalizing d with
  | nil => rfl
  | block _ _ hinside hbehind =>
    rw [List.cons_append, levelAfter?_open, levelAfter?_append, hinside, Option.bind_some, levelAfter?_close, hbehind]

/-- **A text in which so many blocks are open**: each is opened by a brace, and what is behind the brace is balanced. -/
inductive Nested : Nat → Text → Prop
  | closed {u : Text} (word : BracketWord (braces u)) : Nested 0 u
  | opened {d : Nat} {p u : Text} (around : Nested d p) (word : BracketWord (braces u)) : Nested (d + 1) (p ++ '{' :: u)

/-- What is balanced can stand behind. -/
theorem Nested.append (h : Nested d p) (hu : BracketWord (braces u)) : Nested d (p ++ u) := by
  cases h with
  | closed word =>
    refine .closed ?_
    rw [braces_append]
    exact word.append hu
  | @opened d p v around word =>
    rw [List.append_assoc, List.cons_append]
    refine .opened around ?_
    rw [braces_append]
    exact word.append hu

/-- **One byte more.** An opening brace opens a block, and a closing one closes the last one. -/
theorem Nested.concat (h : Nested d p) (hc : levelAfter? d [c] = some k) : Nested k (p ++ [c]) := by
  by_cases hopen : c = '{'
  · subst hopen
    obtain rfl : d + 1 = k := Option.some.inj hc
    exact .opened h .nil
  · by_cases hclose : c = '}'
    · subst hclose
      cases h with
      | closed => cases hc
      | @opened d p u around word =>
        obtain rfl : d = k := Option.some.inj hc
        have hcut : p ++ '{' :: u ++ ['}'] = p ++ ('{' :: u ++ ['}']) := by simp
        rw [hcut]
        refine around.append ?_
        rw [List.cons_append, braces_open, braces_append]
        exact .block word .nil
    · rw [levelAfter?_of_ne hopen hclose] at hc
      obtain rfl : d = k := Option.some.inj hc
      refine h.append ?_
      rw [braces_of_ne hopen hclose]
      exact .nil

theorem Nested.level (h : Nested d p) : levelAfter? 0 p = some d := by
  induction h with
  | closed word =>
    rw [← levelAfter?_braces]
    exact word.level 0
  | @opened d p u around word ih =>
    rw [levelAfter?_append, ih, Option.bind_some, levelAfter?_open, ← levelAfter?_braces]
    exact word.level (d + 1)

/-- **The depth of a text without an excess says how it is made up.** -/
theorem levelAfter?_eq_some_iff_nested : levelAfter? 0 w = some d ↔ Nested d w := by
  refine ⟨?_, Nested.level⟩
  -- by induction from the right end: the bytes are read one after the other
  induction w using List.reverseRecOn generalizing d with
  | nil =>
    intro h
    obtain rfl : 0 = d := Option.some.inj h
    exact .closed .nil
  | append_singleton p c ih =>
    intro h
    rw [levelAfter?_append] at h
    obtain ⟨e, hp, hc⟩ := Option.bind_eq_some_iff.1 h
    exact (ih hp).concat hc

/-- **The braces of a text are a balanced word exactly if the depth is zero at its end.** -/
theorem bracketWord_iff : BracketWord (braces w) ↔ levelAfter? 0 w = some 0 := by
  rw [levelAfter?_eq_some_iff_nested]
  refine ⟨.closed, ?_⟩
  intro h
  cases h with
  | closed word => exact word

/-! ## Partners -/

/-- **The opening brace at offset `i` is the partner of the closing brace at offset `j`**: what is between them is
balanced. -/
structure Partner (w : Text) (i j : Nat) : Prop where
  opener : w[i]? = some '{'
  closer : w[j]? = some '}'
  before : i < j
  between : BracketWord (braces (slice w (i + 1) j))

/-- There is a closing brace at the offset, and no opening brace is its partner. -/
def Unpartnered (w : Text) (j : Nat) : Prop := w[j]? = some '}' ∧ ∀ i, ¬ Partner w i j

/-- **A closing brace has a partner exactly if a block is open before it.** -/
theorem exists_partner_iff (hj : w[j]? = some '}') (h : levelAfter? 0 (w.take j) = some d) :
    (∃ i, Partner w i j) ↔ d ≠ 0 := by
  have hnested := levelAfter?_eq_some_iff_nested.1 h
  constructor
  · rintro ⟨i, hpartner⟩ rfl
    -- a block is opened at the partner, and what is behind it closes nothing
    obtain ⟨hlt, hget⟩ := List.getElem?_eq_some_iff.1 hpartner.opener
    have hcut : w.take j = w.take i ++ '{' :: slice w (i + 1) j := by
      rw [← take_append_slice (Nat.le_of_lt hpartner.before), slice_cons hpartner.before hlt, hget]
    rw [hcut, levelAfter?_append] at h
    obtain ⟨e, -, he⟩ := Option.bind_eq_some_iff.1 h
    rw [levelAfter?_open, ← levelAfter?_braces, hpartner.between.level] at he
    cases he
  · intro hd
    generalize hp : w.take j = p at hnested
    cases hnested with
    | closed => exact absurd rfl hd
    | @opened d q u around word =>
      have hlength : (q ++ '{' :: u).length ≤ j := by
        rw [← hp, List.length_take]
        exact Nat.min_le_left ..
      have hbefore : q.length < j := by
        rw [List.length_append, List.length_cons] at hlength
        omega
      have hbetween : slice w (q.length + 1) j = u := by
        rw [slice, List.take_drop, Nat.add_sub_cancel' hbefore, hp]
        simp
      refine ⟨q.length, ?_, hj, hbefore, ?_⟩
      · rw [← List.getElem?_take_of_lt hbefore, hp]
        simp
      · rw [hbetween]
        exact word

/-- In a text without an excess each closing brace has a partner. -/
theorem exists_partner (h : levelAfter? 0 w = some k) (hj : w[j]? = some '}') : ∃ i, Partner w i j := by
  obtain ⟨hlt, hget⟩ := List.getElem?_eq_some_iff.1 hj
  rw [← List.take_append_drop j w, List.drop_eq_getElem_cons hlt, hget, levelAfter?_append] at h
  obtain ⟨d, hd, hrest⟩ := Option.bind_eq_some_iff.1 h
  refine (exists_partner_iff hj hd).2 ?_
  rintro rfl
  cases hrest

/-! ## The first excess -/

/-- An excess is a closing brace at depth zero, and without one the text has a depth. -/
theorem excess_cases (d pos : Nat) (w : Text) :
    (∃ k, firstExcess? d pos w = none ∧ levelAfter? d w = some k) ∨
      ∃ u v, w = u ++ '}' :: v ∧ firstExcess? d pos w = some (pos + u.length) ∧ levelAfter? d u = some 0 := by
  induction w generalizing d pos with
  | nil => exact .inl ⟨d, rfl, rfl⟩
  | cons c r ih =>
    -- one byte more before an excess
    have hbehind : ∀ {e : Nat}, (∀ s, levelAfter? d (c :: s) = levelAfter? e s) →
        firstExcess? d pos (c :: r) = firstExcess? e (pos + 1) r →
        (∃ k, firstExcess? d pos (c :: r) = none ∧ levelAfter? d (c :: r) = some k) ∨
          ∃ u v, c :: r = u ++ '}' :: v ∧ firstExcess? d pos (c :: r) = some (pos + u.length) ∧
            levelAfter? d u = some 0 := by
      intro e hlevel hexcess
      rw [hexcess, hlevel]
      rcases ih e (pos + 1) with hnone | ⟨u, v, rfl, hsome, hzero⟩
      · exact .inl hnone
      · refine .inr ⟨c :: u, v, rfl, ?_, ?_⟩
        · rw [hsome, List.length_cons, Nat.add_assoc, Nat.add_comm 1]
        · rw [hlevel, hzero]
    by_cases hopen : c = '{'
    · refine hbehind (e := d + 1) (fun s => ?_) ?_
      · rw [levelAfter?, if_pos hopen]
      · rw [firstExcess?, if_pos hopen]
    · by_cases hclose : c = '}'
      · by_cases hd : d = 0
        · refine .inr ⟨[], r, by rw [hclose]; rfl, ?_, by rw [hd]; rfl⟩
          rw [firstExcess?, if_neg hopen, if_pos hclose, if_pos hd]
          rfl
        · refine hbehind (e := d - 1) (fun s => ?_) ?_
          · rw [levelAfter?, if_neg hopen, if_pos hclose, if_neg hd]
          · rw [firstExcess?, if_neg hopen, if_pos hclose, if_neg hd]
      · refine hbehind (e := d) (fun s => ?_) ?_
        · rw [levelAfter?, if_neg hopen, if_neg hclose]
        · rw [firstExcess?, if_neg hopen, if_neg hclose]

/-- **What the first excess is**: the first closing brace without a partner, if there is one. -/
theorem firstExcess?_spec (w : Text) :
    (firstExcess? 0 0 w = none ∧ ∀ j, ¬ Unpartnered w j) ∨
      ∃ j, firstExcess? 0 0 w = some j ∧ Unpartnered w j ∧ ∀ i < j, ¬ Unpartnered w i := by
  rcases excess_cases 0 0 w with ⟨k, hnone, hlevel⟩ | ⟨u, v, rfl, hsome, hzero⟩
  · refine .inl ⟨hnone, ?_⟩
    rintro j ⟨hj, hpartner⟩
    obtain ⟨i, hi⟩ := exists_partner hlevel hj
    exact hpartner i hi
  · have hcloser : (u ++ '}' :: v)[u.length]? = some '}' := by simp
    -- before the excess everything is closed, so the brace has no partner
    have hdepth : levelAfter? 0 ((u ++ '}' :: v).take u.length) = some 0 := by
      rw [List.take_left]
      exact hzero
    refine .inr ⟨u.length, by rw [hsome, Nat.zero_add], ⟨hcloser, ?_⟩, ?_⟩
    · intro i hi
      exact (exists_partner_iff hcloser hdepth).1 ⟨i, hi⟩ rfl
    · -- before it there is no excess
      rintro i hi ⟨hbrace, hpartner⟩
      rw [List.getElem?_append_left hi] at hbrace
      obtain ⟨m, hm⟩ := exists_partner hzero hbrace
      have hbefore : m < u.length := Nat.lt_trans hm.before hi
      refine hpartner m ⟨?_, ?_, hm.before, ?_⟩
      · rw [List.getElem?_append_left hbefore]
        exact hm.opener
      · rw [List.getElem?_append_left hi]
        exact hm.closer
      · have hsame : slice (u ++ '}' :: v) (m + 1) i = slice u (m + 1) i := by
          rw [slice, slice, List.take_drop, List.take_drop, List.take_append_of_le_length]
          omega
        rw [hsame]
        exact hm.between

/-! ## The report -/

/-- A report of braces that do not pair up. -/
theorem eq_of_mem_braceIssues {i : Issue} (h : i ∈ braceIssues t) : braceIssues t = [i] ∧
    i.message = "Mismatched braces: ".toList ++ Text.ofNat ((structuralMask t).count '{') ++ " opening, ".toList ++
      Text.ofNat ((structuralMask t).count '}') ++ " closing".toList ∧
    i.line = (firstExcess? 0 0 (structuralMask t)).map (lineNumberAt t) := by
  simp only [braceIssues] at h ⊢
  split at h
  · next hreported =>
    rw [if_pos hreported]
    obtain rfl := List.mem_singleton.1 h
    exact ⟨rfl, rfl, rfl⟩
  · cases h

theorem braceIssues_eq_nil_iff_word : braceIssues t = [] ↔ BracketWord (braces (structuralMask t)) := by
  rw [braceIssues_eq_nil_iff_level, bracketWord_iff]

/-- **The brace check is exact.** The verdict is whether the braces of the structural mask are a balanced word. If they
are not, there is one report, an error: it tells how many braces there are of either kind, and the line of the first
closing brace without a partner, or no line if each has a partner. -/
theorem brace_check_exact (t : Text) :
    ((checkSyntax t).1.balancedBraces = true ↔ BracketWord (braces (structuralMask t))) ∧
    (BracketWord (braces (structuralMask t)) ∧ (checkSyntax t).1.issues.filter (·.kind = .unbalancedBraces) = [] ∨
      ¬ BracketWord (braces (structuralMask t)) ∧
      ∃ i, (checkSyntax t).1.issues.filter (·.kind = .unbalancedBraces) = [i] ∧
        i.isError = true ∧
        i.message = "Mismatched braces: ".toList ++ Text.ofNat ((structuralMask t).count '{') ++ " opening, ".toList ++
          Text.ofNat ((structuralMask t).count '}') ++ " closing".toList ∧
        ((∃ j, Unpartnered (structuralMask t) j ∧ (∀ k < j, ¬ Unpartnered (structuralMask t) k) ∧
            i.line = some (lineNumberAt t j)) ∨
          (∀ j, ¬ Unpartnered (structuralMask t) j) ∧ i.line = none)) := by
  rw [issues_unbalancedBraces]
  refine ⟨balancedBraces_iff_issues.trans braceIssues_eq_nil_iff_word, ?_⟩
  by_cases hword : BracketWord (braces (structuralMask t))
  · exact .inl ⟨hword, braceIssues_eq_nil_iff_word.2 hword⟩
  · obtain ⟨i, hi⟩ := List.exists_mem_of_ne_nil _ fun h => hword (braceIssues_eq_nil_iff_word.1 h)
    obtain ⟨hreport, hmessage, hline⟩ := eq_of_mem_braceIssues hi
    have herror : i.isError = true := by
      rw [Issue.isError, kind_of_braceIssues hi]
      rfl
    refine .inr ⟨hword, i, hreport, herror, hmessage, ?_⟩
    rcases firstExcess?_spec (structuralMask t) with ⟨hnone, hall⟩ | ⟨j, hsome, hfirst, hbefore⟩
    · rw [hnone] at hline
      exact .inr ⟨hall, hline⟩
    · rw [hsome] at hline
      exact .inl ⟨j, hfirst, hbefore, hline⟩

end Flatsheet.Check
