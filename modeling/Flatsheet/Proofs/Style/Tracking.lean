import Flatsheet.Proofs.Style.Usages

/-!
# `Proofs.Style.Tracking` — which references of a text are converted

References are converted line by line, but whether one is converted can be said of its place alone: what the tracker
knows there (`trackerAt`) is made of the lines before it, and its own line says the rest (`converts`). A reference is
converted exactly if the code mask shows it and its place is one at which references are (`mem_usages_iff`).

* `mem_references_iff`, `mem_usageEdits_iff`: the references of a mask, and those of lines
* `editedBefore`: what becomes of the text before an offset
* `replaceSpans_keeps`, `replaceSpans_puts`: a stretch that no edit touches, and one that an edit takes the place of
-/

namespace Flatsheet.Style

open Text Check Mask

variable {t code line name q w : Text} {s : Span} {e : Span × Text} {es ds fs : List (Span × Text)} {i j k pos : Nat}

/-! ## References of a mask -/

/-- **A reference begins at an offset** of a mask: a dollar sign and the first byte of a name. -/
def refers (code : Text) (i : Nat) : Bool := code[i]? = some '$' && code[i + 1]?.any isIdentStart

/-- The name of a reference. -/
def nameAt (code : Text) (i : Nat) : Text := (code.drop (i + 1)).takeWhile isIdent

theorem refers_drop (code : Text) (n i : Nat) : refers (code.drop n) i = refers code (n + i) := by
  rw [refers, refers, List.getElem?_drop, List.getElem?_drop, Nat.add_assoc]

theorem nameAt_drop (code : Text) (n i : Nat) : nameAt (code.drop n) i = nameAt code (n + i) := by
  rw [nameAt, nameAt, List.drop_drop, Nat.add_assoc]

theorem look_of_refers {c : Cursor} (h : refers c.rest 0 = true) : Reference.look c = .found
    (⟨c.pos, c.pos + 1 + (nameAt c.rest 0).length⟩, nameAt c.rest 0) (1 + (nameAt c.rest 0).length) := by
  obtain ⟨seen, pos, rest⟩ := c
  cases rest with
  | nil => cases h
  | cons y r =>
    simp only [refers, List.getElem?_cons_zero, Option.some.injEq, Bool.and_eq_true, decide_eq_true_eq,
      List.getElem?_cons_succ] at h
    obtain ⟨rfl, hstart⟩ := h
    rw [← List.head?_eq_getElem?] at hstart
    simp only [Reference.look, hstart, if_true]
    rfl

theorem look_of_not_refers {c : Cursor} (h : refers c.rest 0 = false) : Reference.look c = .nothing := by
  unfold Reference.look
  split
  · next r hrest =>
    rw [if_neg]
    intro hstart
    rw [hrest] at h
    simp [refers, ← List.head?_eq_getElem?, hstart] at h
  · rfl

/-- The name of a reference is made of identifier bytes. -/
theorem ident_of_take_nameAt (y : Char) (r : Text) : ∀ x ∈ r.take (nameAt (y :: r) 0).length, isIdent x = true := by
  have hleads : r.takeWhile isIdent <+: r := List.takeWhile_prefix isIdent
  show ∀ x ∈ r.take (r.takeWhile isIdent).length, isIdent x = true
  rw [← List.prefix_iff_eq_take.1 hleads]
  exact List.all_eq_true.1 List.all_takeWhile

/-- A reference is at the first byte or behind it. -/
theorem exists_refers_cons (y : Char) (r : Text) : (∃ k, refers (y :: r) k = true ∧ name = nameAt (y :: r) k ∧
      s = ⟨pos + k, pos + k + 1 + name.length⟩) ↔
    (refers (y :: r) 0 = true ∧ name = nameAt (y :: r) 0 ∧ s = ⟨pos, pos + 1 + name.length⟩) ∨
      ∃ k, refers r k = true ∧ name = nameAt r k ∧ s = ⟨pos + 1 + k, pos + 1 + k + 1 + name.length⟩ := by
  have hplace : ∀ k, pos + 1 + k = pos + (k + 1) := by omega
  constructor
  · rintro ⟨k, h⟩
    cases k with
    | zero => exact .inl h
    | succ k =>
      rw [← hplace] at h
      exact .inr ⟨k, h⟩
  · rintro (h | ⟨k, h⟩)
    · exact ⟨0, h⟩
    · rw [hplace] at h
      exact ⟨k + 1, h⟩

/-- References found from a place on. While a name is passed over there is no dollar sign. -/
theorem mem_sweepFrom_references {seen : Text} {wait : Nat} (hwait : ∀ x ∈ w.take wait, isIdent x = true) :
    (s, name) ∈ sweepFrom Reference.look seen pos wait w ↔ ∃ k, refers w k = true ∧ name = nameAt w k ∧
      s = ⟨pos + k, pos + k + 1 + name.length⟩ := by
  induction w generalizing seen pos wait with
  | nil =>
    constructor
    · intro h
      cases h
    · rintro ⟨k, hrefers, -⟩
      simp [refers] at hrefers
  | cons y r ih =>
    rw [exists_refers_cons, sweepFrom]
    split
    · next hpassing =>
      obtain ⟨m, rfl⟩ : ∃ m, wait = m + 1 := ⟨wait - 1, by omega⟩
      rw [List.take_succ_cons] at hwait
      -- a name that is passed over has no dollar sign in it
      have hnot : refers (y :: r) 0 = false := by
        have hident := hwait y List.mem_cons_self
        have hdollar : y ≠ '$' := by
          rintro rfl
          cases hident
        simp [refers, hdollar]
      rw [Nat.add_sub_cancel, ih fun x hx => hwait x (List.mem_cons_of_mem y hx)]
      simp [hnot]
    · by_cases hhere : refers (y :: r) 0 = true
      · rw [look_of_refers (c := ⟨seen, pos, y :: r⟩) hhere]
        have hcount : 1 + (nameAt (y :: r) 0).length - 1 = (nameAt (y :: r) 0).length := by omega
        simp only [List.mem_cons, hcount, ih (ident_of_take_nameAt y r), hhere, true_and, Prod.mk.injEq]
        refine or_congr_left ?_
        constructor
        · rintro ⟨rfl, rfl⟩
          exact ⟨rfl, rfl⟩
        · rintro ⟨rfl, rfl⟩
          exact ⟨rfl, rfl⟩
      · have hnot : refers (y :: r) 0 = false := Bool.eq_false_iff.2 hhere
        rw [look_of_not_refers (c := ⟨seen, pos, y :: r⟩) hnot]
        have hnone : ∀ x ∈ r.take 0, isIdent x = true := by simp
        simp only [ih hnone, hnot, Bool.false_eq_true, false_and, false_or]

/-- **The references of a mask.** -/
theorem mem_references_iff : (s, name) ∈ Reference.find code ↔
    refers code s.start = true ∧ name = nameAt code s.start ∧ s.stop = s.start + 1 + name.length := by
  rw [Reference.find, sweep, mem_sweepFrom_references (by simp)]
  constructor
  · rintro ⟨k, hrefers, hname, rfl⟩
    simp only [Nat.zero_add]
    exact ⟨hrefers, hname, trivial⟩
  · rintro ⟨hrefers, hname, hstop⟩
    refine ⟨s.start, hrefers, hname, ?_⟩
    rw [Nat.zero_add, ← hstop]

theorem dollar_of_refers (h : refers code i = true) : code[i]? = some '$' := by
  rw [refers, Bool.and_eq_true, decide_eq_true_eq] at h
  exact h.1

theorem lt_length_of_refers (h : refers code i = true) : i < code.length :=
  (List.getElem?_eq_some_iff.1 (dollar_of_refers h)).1

/-- The conversions of references of a text that is taken as a whole. -/
theorem mem_edits_iff : (s, q) ∈ Reference.edits t code ↔ refers code s.start = true ∧
    s.stop = s.start + 1 + (nameAt code s.start).length ∧ q = Reference.replacement (nameAt code s.start) ∧
      (interpolations t).any (·.covers s.start) = false := by
  unfold Reference.edits
  simp only [List.mem_map, List.mem_filter, Prod.exists, Prod.mk.injEq, mem_references_iff, Bool.not_eq_true']
  constructor
  · rintro ⟨_, _, ⟨⟨hrefers, rfl, hstop⟩, houtside⟩, rfl, rfl⟩
    exact ⟨hrefers, hstop, rfl, houtside⟩
  · rintro ⟨hrefers, hstop, rfl, houtside⟩
    exact ⟨s, _, ⟨⟨hrefers, rfl, hstop⟩, houtside⟩, rfl, rfl⟩

/-- The bytes of a name behind its dollar sign. -/
theorem ident_of_nameAt {x : Char} (hi : i < k) (hk : k < i + 1 + (nameAt code i).length) (hx : code[k]? = some x) :
    isIdent x = true := by
  obtain ⟨m, rfl⟩ : ∃ m, k = i + 1 + m := ⟨k - (i + 1), by omega⟩
  obtain ⟨r, hr⟩ : nameAt code i <+: code.drop (i + 1) := List.takeWhile_prefix isIdent
  have hm : m < (nameAt code i).length := by omega
  rw [← List.getElem?_drop, ← hr, List.getElem?_append_left hm] at hx
  exact List.all_eq_true.1 List.all_takeWhile x (List.mem_of_getElem? hx)

/-! ## References of lines -/

/-- **The references of a line are converted** at a column: the conversion starts there or before, and no
interpolation is in the way. -/
def Tracker.converts (tracker : Tracker) (line code : Text) (col : Nat) : Bool :=
  match tracker.convertFrom? code with
  | none => false
  | some start => start ≤ col && !(interpolations (line.drop start)).any (·.covers (col - start))

theorem mem_lineEdits_iff {tracker : Tracker} (hlength : line.length = code.length) :
    (s, q) ∈ lineEdits tracker line code ↔ refers code s.start = true ∧
      s.stop = s.start + 1 + (nameAt code s.start).length ∧ q = Reference.replacement (nameAt code s.start) ∧
        tracker.converts line code s.start = true := by
  have hdollar : refers code s.start = true → code.contains '$' = true := by
    intro h
    simpa using List.mem_of_getElem? (dollar_of_refers h)
  unfold lineEdits Tracker.converts
  cases hfrom : tracker.convertFrom? code with
  | none => simp
  | some start =>
    -- a line without a dollar sign is left out, but it has no references either
    by_cases hshown : code.contains '$' = true
    · rw [if_pos hshown]
      dsimp only
      split
      · next hinside =>
        constructor
        · intro h
          obtain ⟨⟨f, q'⟩, hf, heq⟩ := List.mem_map.1 h
          obtain ⟨hrefers, hstop, rfl, houtside⟩ := mem_edits_iff.1 hf
          obtain ⟨rfl, rfl⟩ := Prod.mk.inj heq
          rw [refers_drop] at hrefers
          rw [nameAt_drop] at hstop
          have hplace : (f.shift start).start = start + f.start := Nat.add_comm _ _
          refine ⟨hplace ▸ hrefers, ?_, ?_, ?_⟩
          · rw [hplace]
            show f.stop + start = _
            omega
          · rw [hplace, nameAt_drop]
          · rw [hplace, Nat.add_sub_cancel_left, houtside]
            simp
        · rintro ⟨hrefers, hstop, rfl, hconverts⟩
          simp only [Bool.and_eq_true, decide_eq_true_eq, Bool.not_eq_true'] at hconverts
          obtain ⟨hle, houtside⟩ := hconverts
          have hplace : start + (s.start - start) = s.start := Nat.add_sub_cancel' hle
          have hstops : s.start ≤ s.stop := by omega
          refine List.mem_map.2 ⟨(⟨s.start - start, s.stop - start⟩, _), mem_edits_iff.2 ⟨?_, ?_, rfl, houtside⟩, ?_⟩
          · rw [refers_drop, hplace]
            exact hrefers
          · rw [nameAt_drop, hplace]
            dsimp only
            omega
          · rw [nameAt_drop, hplace, shiftEdit, Span.shift, Nat.sub_add_cancel hle,
              Nat.sub_add_cancel (Nat.le_trans hle hstops)]
      · next houtside =>
        constructor
        · intro h
          cases h
        · rintro ⟨hrefers, -, -, hconverts⟩
          simp only [Bool.and_eq_true, decide_eq_true_eq] at hconverts
          have hlt := lt_length_of_refers hrefers
          omega
    · rw [if_neg hshown]
      constructor
      · intro h
        cases h
      · rintro ⟨hrefers, -⟩
        exact absurd (hdollar hrefers) hshown

/-- The tracker after some lines. -/
def Tracker.follow (tracker : Tracker) (codes : List Text) : Tracker := codes.foldl Tracker.advance tracker

theorem shiftEdit_shiftEdit (m n : Nat) (e : Span × Text) : shiftEdit m (shiftEdit n e) = shiftEdit (m + n) e := by
  simp only [shiftEdit, Span.shift, Nat.add_assoc, Nat.add_comm n m]

/-- **The conversions of lines are those of each line**, moved behind the lines before it. -/
theorem mem_usageEdits_iff {tracker : Tracker} {ls : List (Text × Text)} : e ∈ usageEdits tracker ls ↔
    ∃ before line code after f, ls = before ++ (line, code) :: after ∧
      f ∈ lineEdits (tracker.follow (before.map (·.2))) line code ∧
        e = shiftEdit (ended (before.map (·.1))).length f := by
  induction ls generalizing tracker e with
  | nil =>
    constructor
    · intro h
      cases h
    · rintro ⟨before, line, code, after, f, hcut, -⟩
      simp at hcut
  | cons l ls ih =>
    obtain ⟨line, code⟩ := l
    -- the lines behind the first one are moved by it and its line feed
    have hlength : ∀ before : List (Text × Text), (ended (((line, code) :: before).map (·.1))).length =
        line.length + 1 + (ended (before.map (·.1))).length := by
      intro before
      show (ended (line :: before.map (·.1))).length = _
      rw [ended_cons, List.length_append, List.length_cons]
      omega
    rw [usageEdits, List.mem_append]
    constructor
    · rintro (h | h)
      · exact ⟨[], line, code, ls, e, rfl, h, rfl⟩
      · obtain ⟨g, hg, rfl⟩ := List.mem_map.1 h
        obtain ⟨before, line', code', after, f, rfl, hf, rfl⟩ := ih.1 hg
        refine ⟨(line, code) :: before, line', code', after, f, rfl, hf, ?_⟩
        rw [hlength, shiftEdit_shiftEdit]
    · rintro ⟨before, line', code', after, f, hcut, hf, rfl⟩
      cases before with
      | nil =>
        obtain ⟨heq, -⟩ := List.cons.inj hcut
        cases heq
        exact .inl hf
      | cons b before =>
        obtain ⟨rfl, rfl⟩ := List.cons.inj hcut
        right
        rw [hlength, ← shiftEdit_shiftEdit]
        exact List.mem_map_of_mem (ih.2 ⟨before, line', code', after, f, rfl, hf, rfl⟩)

/-! ## References of a text -/

/-- What the tracker knows on the line of an offset of a mask. -/
def trackerAt (code : Text) (i : Nat) : Tracker := ({} : Tracker).follow (lines (code.take i)).dropLast

/-- The line of an offset. -/
def lineAt (t : Text) (i : Nat) : Text := lastLine (t.take i) ++ Text.firstLine (t.drop i)

/-- Where on its line an offset is. -/
def columnAt (t : Text) (i : Nat) : Nat := (lastLine (t.take i)).length

/-- **References are converted at an offset of the text.** -/
def converts (t : Text) (i : Nat) : Bool :=
  (trackerAt (codeMask t) i).converts (lineAt t i) (lineAt (codeMask t) i) (columnAt t i)

/-- Behind a line there is nothing, or a line feed. -/
theorem any_append_of_end {r l : Text} {p : Char → Bool} (hp : p '\n' = false) (hend : r = [] ∨ ∃ r', r = '\n' :: r')
    (hk : k ≤ l.length) : (l ++ r)[k]?.any p = l[k]?.any p := by
  by_cases hlt : k < l.length
  · rw [List.getElem?_append_left hlt]
  · have heq : k = l.length := by omega
    have hstops : r[0]?.any p = false := by
      rcases hend with rfl | ⟨r', rfl⟩
      · rfl
      · exact hp
    rw [List.getElem?_append_right (Nat.le_of_not_lt hlt), heq, Nat.sub_self, hstops]
    simp

/-- The line of a place says whether a reference begins there. -/
theorem refers_of_lines {before after : List Text} {l : Text} {col : Nat} (h : lines w = before ++ l :: after)
    (hcol : col ≤ l.length) : refers w ((ended before).length + col) = refers l col := by
  obtain ⟨r, rfl, hend⟩ := eq_of_lines h
  have hdollar : ∀ o : Option Char, decide (o = some '$') = o.any (· = '$') := by
    intro o
    cases o <;> simp
  rw [← refers_drop, List.drop_left, refers, refers, hdollar, hdollar, any_append_of_end (by decide) hend hcol]
  by_cases hlt : col < l.length
  · rw [any_append_of_end (by decide) hend hlt]
  · have hnone : l[col]? = none := List.getElem?_eq_none (Nat.le_of_not_lt hlt)
    rw [hnone]
    rfl

/-- And it has the whole name. -/
theorem nameAt_of_lines {before after : List Text} {l : Text} {col : Nat} (h : lines w = before ++ l :: after)
    (hcol : col < l.length) : nameAt w ((ended before).length + col) = nameAt l col := by
  obtain ⟨r, rfl, hend⟩ := eq_of_lines h
  have hstops : r.takeWhile isIdent = [] := by
    rcases hend with rfl | ⟨r', rfl⟩
    · rfl
    · rfl
  rw [← nameAt_drop, List.drop_left, nameAt, nameAt, List.drop_append_of_le_length hcol, List.takeWhile_append, hstops,
    List.append_nil]
  split
  · next hall => exact (List.takeWhile_prefix isIdent).eq_of_length hall |>.symm
  · rfl

theorem eq_map_of_zip {α β : Type} {as : List α} {bs : List β} {before after : List (α × β)} {a : α} {b : β}
    (h : as.zip bs = before ++ (a, b) :: after) (hlength : as.length = bs.length) :
    as = before.map (·.1) ++ a :: after.map (·.1) ∧ bs = before.map (·.2) ++ b :: after.map (·.2) := by
  have hfirst : (as.zip bs).map (·.1) = as := List.map_fst_zip (Nat.le_of_eq hlength)
  have hsecond : (as.zip bs).map (·.2) = bs := List.map_snd_zip (Nat.le_of_eq hlength.symm)
  rw [h] at hfirst hsecond
  exact ⟨by simpa using hfirst.symm, by simpa using hsecond.symm⟩

theorem length_ended_congr {ls ls' : List Text} (h : ls.map List.length = ls'.map List.length) :
    (ended ls).length = (ended ls').length := by
  induction ls generalizing ls' with
  | nil =>
    cases ls' with
    | nil => rfl
    | cons l' ls' => cases h
  | cons l ls ih =>
    cases ls' with
    | nil => cases h
    | cons l' ls' =>
      simp only [List.map_cons, List.cons.injEq] at h
      rw [ended_cons, ended_cons, List.length_append, List.length_append, List.length_cons, List.length_cons, h.1,
        ih h.2]

/-- **A line of the text and of its mask** say what happens at a place on them. -/
theorem converts_of_lines {before after : List (Text × Text)} {col : Nat}
    (h : (lines t).zip (lines (codeMask t)) = before ++ (line, code) :: after) (hcol : col ≤ code.length) :
    (ended (before.map (·.1))).length = (ended (before.map (·.2))).length ∧ line.length = code.length ∧
      lines (codeMask t) = before.map (·.2) ++ code :: after.map (·.2) ∧
      converts t ((ended (before.map (·.2))).length + col) =
        (({} : Tracker).follow (before.map (·.2))).converts line code col := by
  have hlengths : (lines t).map List.length = (lines (codeMask t)).map List.length := (lengths_lines_mask t).symm
  have hcount : (lines t).length = (lines (codeMask t)).length := by simpa using congrArg List.length hlengths
  obtain ⟨ht, hm⟩ := eq_map_of_zip h hcount
  have heach : ∀ l ∈ before ++ (line, code) :: after, l.1.length = l.2.length := by
    intro l hl
    rw [← h] at hl
    exact eq_of_mem_zip hlengths hl
  have hline : line.length = code.length :=
    heach (line, code) (List.mem_append_right _ List.mem_cons_self)
  have hbefore : (ended (before.map (·.1))).length = (ended (before.map (·.2))).length := by
    apply length_ended_congr
    rw [List.map_map, List.map_map]
    apply List.map_congr_left
    intro l hl
    exact heach l (List.mem_append_left _ hl)
  have hcol' : col ≤ line.length := hline ▸ hcol
  obtain ⟨htake, hlast, hfirst⟩ := place_of_lines hm rfl hcol
  obtain ⟨-, hlast', hfirst'⟩ := place_of_lines ht rfl hcol'
  rw [hbefore] at hlast' hfirst'
  -- the lines of a mask have no line feed in them, so they are found again behind what is put together of them
  have hnone : ∀ l ∈ before.map (·.2), '\n' ∉ l := by
    intro l hl
    apply not_mem_of_mem_splitOn (s := '\n') (t := codeMask t)
    show l ∈ lines (codeMask t)
    rw [hm]
    exact List.mem_append_left _ hl
  have hcode : '\n' ∉ code := by
    apply not_mem_of_mem_splitOn (s := '\n') (t := codeMask t)
    show code ∈ lines (codeMask t)
    rw [hm]
    exact List.mem_append_right _ List.mem_cons_self
  have htracker : trackerAt (codeMask t) ((ended (before.map (·.2))).length + col) =
      ({} : Tracker).follow (before.map (·.2)) := by
    rw [trackerAt, htake, lines_ended hnone, lines, splitOn_of_not_mem fun hx => hcode (List.mem_of_mem_take hx),
      List.dropLast_concat]
  refine ⟨hbefore, hline, hm, ?_⟩
  rw [converts, htracker, lineAt, lineAt, columnAt, hlast, hfirst, hlast', hfirst', List.take_append_drop,
    List.take_append_drop, List.length_take_of_le hcol']

/-- A line of the mask comes with a line of the text. -/
theorem exists_zip {before after : List Text} (h : lines (codeMask t) = before ++ code :: after) :
    ∃ before' line after', (lines t).zip (lines (codeMask t)) = before' ++ (line, code) :: after' ∧
      before'.map (·.2) = before := by
  have hlengths : (lines t).map List.length = (lines (codeMask t)).map List.length := (lengths_lines_mask t).symm
  have hcount : (lines t).length = (lines (codeMask t)).length := by simpa using congrArg List.length hlengths
  have hsecond : ((lines t).zip (lines (codeMask t))).map (·.2) = before ++ code :: after := by
    rw [List.map_snd_zip (Nat.le_of_eq hcount.symm), h]
  obtain ⟨before', rest, hcut, hbefore, hrest⟩ := List.map_eq_append_iff.1 hsecond
  obtain ⟨⟨line, code'⟩, after', rfl, rfl, -⟩ := List.map_eq_cons_iff.1 hrest
  exact ⟨before', line, after', hcut, hbefore⟩

/-- So the lines of the mask say where references are converted. -/
theorem converts_of_line {before after : List Text} {col : Nat} (h : lines (codeMask t) = before ++ code :: after)
    (hcol : col ≤ code.length) : ∃ line,
    converts t ((ended before).length + col) = (({} : Tracker).follow before).converts line code col := by
  obtain ⟨before', line, after', hcut, rfl⟩ := exists_zip h
  exact ⟨line, (converts_of_lines hcut hcol).2.2.2⟩

/-- What the tracker knows at the end of a mask. -/
theorem trackerAt_length {u : Text} {pre : List Text} {last : Text} (h : lines u = pre ++ [last]) :
    trackerAt u u.length = ({} : Tracker).follow pre := by
  rw [trackerAt, List.take_length, h, List.dropLast_concat]

/-- **On the same line** the tracker knows the same. -/
theorem converts_here {u v r : Text} (hmask : codeMask t = u ++ (v ++ r)) (hv : '\n' ∉ v) :
    ∃ line, converts t (u.length + v.length) = (trackerAt u u.length).converts line
      (lastLine u ++ Text.firstLine (v ++ r)) ((lastLine u).length + v.length) := by
  obtain ⟨pre, hpre, hnone, hlast, hlines⟩ := exists_lastLine u
  obtain ⟨after, hline⟩ := lines_append hlast (v ++ r)
  have hmask' : lines (codeMask t) = pre ++ (lastLine u ++ Text.firstLine (v ++ r)) :: after := by
    conv =>
      lhs
      rw [hmask, hpre, List.append_assoc, lines_ended hnone, hline]
  have hplace : u.length + v.length = (ended pre).length + ((lastLine u).length + v.length) := by
    conv =>
      lhs
      rw [hpre, List.length_append, Nat.add_assoc]
  have hcol : (lastLine u).length + v.length ≤ (lastLine u ++ Text.firstLine (v ++ r)).length := by
    rw [firstLine_append_left hv, List.length_append, List.length_append]
    omega
  rw [trackerAt_length hlines, hplace]
  exact converts_of_line hmask' hcol

/-- **Behind line breaks** the tracker has gone over the lines in between. -/
theorem converts_behind {u v r l : Text} {ls : List Text} (hmask : codeMask t = u ++ (ended (l :: ls) ++ v ++ r))
    (hls : ∀ l' ∈ l :: ls, '\n' ∉ l') (hv : '\n' ∉ v) :
    ∃ line code, converts t (u.length + (ended (l :: ls) ++ v).length) =
      (((trackerAt u u.length).advance (lastLine u ++ l)).follow ls).converts line code v.length := by
  obtain ⟨pre, hpre, hnone, hlast, hlines⟩ := exists_lastLine u
  have hbefore : ∀ l' ∈ pre ++ (lastLine u ++ l) :: ls, '\n' ∉ l' := by
    intro l' hl'
    rcases List.mem_append.1 hl' with hl' | hl'
    · exact hnone l' hl'
    · rcases List.mem_cons.1 hl' with rfl | hl'
      · rw [List.mem_append, not_or]
        exact ⟨hlast, hls l List.mem_cons_self⟩
      · exact hls l' (List.mem_cons_of_mem l hl')
  -- the last line before and the first one of the stretch are one line
  have hcut : u ++ ended (l :: ls) = ended (pre ++ (lastLine u ++ l) :: ls) := by
    conv =>
      lhs
      rw [hpre, ended_cons]
    rw [ended_append, ended_cons]
    simp only [List.append_assoc]
  obtain ⟨after, hline⟩ := lines_append hv r
  have hmask' : lines (codeMask t) = (pre ++ (lastLine u ++ l) :: ls) ++ (v ++ Text.firstLine r) :: after := by
    rw [hmask, List.append_assoc, ← List.append_assoc, hcut, lines_ended hbefore, hline]
  have hplace : u.length + (ended (l :: ls) ++ v).length =
      (ended (pre ++ (lastLine u ++ l) :: ls)).length + v.length := by
    rw [← hcut, List.length_append, List.length_append, Nat.add_assoc]
  have hcol : v.length ≤ (v ++ Text.firstLine r).length := by
    rw [List.length_append]
    exact Nat.le_add_right _ _
  have hfollow : ({} : Tracker).follow (pre ++ (lastLine u ++ l) :: ls) =
      ((trackerAt u u.length).advance (lastLine u ++ l)).follow ls := by
    rw [trackerAt_length hlines, Tracker.follow, List.foldl_append]
    rfl
  obtain ⟨line, hconverts⟩ := converts_of_line hmask' hcol
  rw [hplace, hconverts, hfollow]
  exact ⟨line, _, rfl⟩

/-- **The conversions of references in a text**: which of its references are converted, and into what. -/
theorem mem_usages_iff : (s, q) ∈ usages t ↔ refers (codeMask t) s.start = true ∧
    s.stop = s.start + 1 + (nameAt (codeMask t) s.start).length ∧
      q = Reference.replacement (nameAt (codeMask t) s.start) ∧ converts t s.start = true := by
  rw [usages, mem_usageEdits_iff]
  constructor
  · rintro ⟨before, line, code, after, ⟨f, q'⟩, hcut, hf, heq⟩
    obtain ⟨rfl, rfl⟩ := Prod.mk.inj heq
    obtain ⟨-, hlength, -, -⟩ := converts_of_lines hcut (Nat.zero_le _)
    obtain ⟨hrefers, hstop, rfl, hconverts⟩ := (mem_lineEdits_iff hlength).1 hf
    have hcol := lt_length_of_refers hrefers
    obtain ⟨hbefore, -, hm, hsame⟩ := converts_of_lines hcut (Nat.le_of_lt hcol)
    have hplace : (f.shift (ended (before.map (·.1))).length).start = (ended (before.map (·.2))).length + f.start := by
      show f.start + _ = _
      rw [hbefore, Nat.add_comm]
    have hname := nameAt_of_lines hm hcol
    refine ⟨?_, ?_, ?_, ?_⟩
    · rw [hplace, refers_of_lines hm (Nat.le_of_lt hcol)]
      exact hrefers
    · rw [hplace, hname]
      show f.stop + _ = _
      omega
    · rw [hplace, hname]
    · rw [hplace, hsame]
      exact hconverts
  · rintro ⟨hrefers, hstop, rfl, hconverts⟩
    -- a reference lies on one line of the mask, and the text has a line of its length there
    obtain ⟨before', code', after', col, hm, hplace, hcol⟩ :=
      exists_line (codeMask t) (Nat.le_of_lt (lt_length_of_refers hrefers))
    obtain ⟨before, line, after, hcut, rfl⟩ := exists_zip hm
    obtain ⟨hbefore, hlength, -, hsame⟩ := converts_of_lines hcut hcol
    rw [hplace] at hrefers hconverts hstop ⊢
    rw [refers_of_lines hm hcol] at hrefers
    have hname := nameAt_of_lines hm (lt_length_of_refers hrefers)
    rw [hsame] at hconverts
    rw [hname] at hstop ⊢
    refine ⟨before, line, code', after, (⟨col, col + 1 + (nameAt code' col).length⟩, _), hcut,
      (mem_lineEdits_iff hlength).2 ⟨hrefers, rfl, rfl, hconverts⟩, ?_⟩
    obtain ⟨start, stop⟩ := s
    simp only [shiftEdit, Span.shift, Prod.mk.injEq, Span.mk.injEq, hbefore, and_true] at hplace hstop ⊢
    omega

/-- Where conversion does not start, nothing is converted. -/
theorem Tracker.converts_eq_false {tracker : Tracker} {col : Nat}
    (h : ∀ start ∈ tracker.convertFrom? code, col < start) : tracker.converts line code col = false := by
  unfold Tracker.converts
  split
  · rfl
  · next start hstart =>
    rw [decide_eq_false (Nat.not_le.2 (h start hstart)), Bool.false_and]

/-! ## Stretches -/

/-- What becomes of the text before an offset: the edits are made that end there or before. -/
def editedBefore (t : Text) (es : List (Span × Text)) (i : Nat) : Text :=
  replaceSpans (t.take i) (es.filter (·.1.stop ≤ i))

/-- Spans that do not touch a stretch are before it or behind it. -/
theorem filter_append_of_apart {α : Type} {es : List α} (span : α → Span) (apart : Apart t (es.map span)) (hij : i ≤ j)
    (h : ∀ e ∈ es, (span e).stop ≤ i ∨ j ≤ (span e).start) :
    ∃ fs, es = es.filter (fun e => (span e).stop ≤ i) ++ fs ∧ ∀ e ∈ fs, j ≤ (span e).start := by
  induction es with
  | nil => exact ⟨[], rfl, nofun⟩
  | cons e es ih =>
    obtain ⟨hordered, hinside⟩ := apart
    rw [List.map_cons, List.pairwise_cons] at hordered
    obtain ⟨hlt, -⟩ := hinside (span e) List.mem_cons_self
    rcases h e List.mem_cons_self with hbefore | hbehind
    · obtain ⟨fs, hcut, hfs⟩ := ih ⟨hordered.2, fun s hs => hinside s (List.mem_cons_of_mem _ hs)⟩
        fun f hf => h f (List.mem_cons_of_mem e hf)
      refine ⟨fs, ?_, hfs⟩
      rw [List.filter_cons_of_pos (by simpa using hbefore), List.cons_append, ← hcut]
    · have hall : ∀ f ∈ e :: es, j ≤ (span f).start := by
        intro f hf
        rcases List.mem_cons.1 hf with rfl | hf
        · exact hbehind
        · have hnext := hordered.1 (span f) (List.mem_map_of_mem hf)
          omega
      refine ⟨e :: es, ?_, hall⟩
      have hnone : (e :: es).filter (fun e => (span e).stop ≤ i) = [] := by
        rw [List.filter_eq_nil_iff]
        intro f hf
        have hstart := hall f hf
        have hstop := (hinside (span f) (List.mem_map_of_mem hf)).1
        simp only [decide_eq_true_eq]
        omega
      rw [hnone, List.nil_append]

/-- The text before a place is edited by itself. -/
theorem replaceSpans_before (apart : Apart t (es.map (·.1))) (hi : i ≤ t.length) (r : Text) :
    replaceSpans (t.take i ++ r) (es.filter (·.1.stop ≤ i)) = editedBefore t es i ++ r := by
  have hkept : Apart t ((es.filter (·.1.stop ≤ i)).map (·.1)) := apart_sublist apart (List.filter_sublist.map _)
  apply replaceSpans_left
  refine ⟨hkept.1, ?_⟩
  intro s hs
  rw [List.length_take_of_le hi]
  obtain ⟨e, he, rfl⟩ := List.mem_map.1 hs
  exact ⟨(hkept.2 e.1 hs).1, of_decide_eq_true (List.mem_filter.1 he).2⟩

/-- **A stretch that no edit touches stays.** -/
theorem replaceSpans_keeps (apart : Apart t (es.map (·.1))) (hij : i ≤ j) (hj : j ≤ t.length)
    (h : ∀ e ∈ es, e.1.stop ≤ i ∨ j ≤ e.1.start) :
    ∃ back, replaceSpans t es = editedBefore t es i ++ slice t i j ++ back := by
  obtain ⟨fs, hes, hfs⟩ := filter_append_of_apart (fun e : Span × Text => e.1) apart hij h
  obtain ⟨hsame, -⟩ := take_replaceSpans hj hfs
  obtain ⟨htake, hslice⟩ := take_slice_congr hsame hij
  have hcut : replaceSpans t fs = t.take i ++ (slice t i j ++ (replaceSpans t fs).drop j) := by
    rw [← htake, ← hslice, take_slice_drop hij]
  generalize (replaceSpans t fs).drop j = back at hcut
  refine ⟨back, ?_⟩
  conv =>
    lhs
    rw [hes]
  rw [replaceSpans_append, hcut, replaceSpans_before apart (Nat.le_trans hij hj), List.append_assoc]

/-- **An edit puts its piece**, and what stands behind it stays up to the next edit. -/
theorem replaceSpans_puts (apart : Apart t (es.map (·.1))) (he : e ∈ es) (hj : e.1.stop ≤ j ∧ j ≤ t.length)
    (h : ∀ f ∈ es, f = e ∨ f.1.stop ≤ e.1.start ∨ j ≤ f.1.start) :
    ∃ back, replaceSpans t es = editedBefore t es e.1.start ++ e.2 ++ slice t e.1.stop j ++ back := by
  obtain ⟨ds, fs, hes⟩ := List.append_of_mem he
  have hordered := apart.1
  rw [hes, List.map_append, List.map_cons, List.pairwise_append, List.pairwise_cons] at hordered
  obtain ⟨-, ⟨hlater, -⟩, hearlier⟩ := hordered
  have hall := apart.2 e.1 (List.mem_map_of_mem he)
  have hfs : ∀ f ∈ fs, e.1.stop ≤ f.1.start := fun f hf => hlater f.1 (List.mem_map_of_mem hf)
  have hmem : ∀ f ∈ fs, f ∈ es := by
    intro f hf
    rw [hes]
    exact List.mem_append_right _ (List.mem_cons_of_mem e hf)
  have hinside : ∀ f ∈ fs, f.1.start < f.1.stop := fun f hf => (apart.2 f.1 (List.mem_map_of_mem (hmem f hf))).1
  have hbehind : ∀ f ∈ fs, j ≤ f.1.start := by
    intro f hf
    have hnext := hfs f hf
    have hlt := hinside f hf
    rcases h f (hmem f hf) with rfl | hbefore | hbehind
    · omega
    · omega
    · exact hbehind
  -- the edits that end before it are those that precede it
  have hbefore : es.filter (·.1.stop ≤ e.1.start) = ds := by
    rw [hes, List.filter_append, List.filter_eq_self.2, List.filter_eq_nil_iff.2, List.append_nil]
    · intro f hf
      simp only [decide_eq_true_eq, Nat.not_le]
      rcases List.mem_cons.1 hf with rfl | hf
      · exact hall.1
      · have hnext := hfs f hf
        have hlt := hinside f hf
        omega
    · intro f hf
      exact decide_eq_true (hearlier f.1 (List.mem_map_of_mem hf) e.1 List.mem_cons_self)
  obtain ⟨hsame, -⟩ := take_replaceSpans hj.2 hbehind
  obtain ⟨-, hslice⟩ := take_slice_congr hsame hj.1
  obtain ⟨htake, -⟩ := take_slice_congr hsame (Nat.le_trans (Nat.le_of_lt hall.1) hj.1)
  have hrest : (replaceSpans t fs).drop e.1.stop = slice t e.1.stop j ++ (replaceSpans t fs).drop j := by
    rw [← hslice]
    exact drop_eq_slice_append hj.1 _
  have hput : replaceSpans t (e :: fs) =
      t.take e.1.start ++ (e.2 ++ (slice t e.1.stop j ++ (replaceSpans t fs).drop j)) := by
    show replaceSpan (replaceSpans t fs) e.1 e.2 = _
    rw [replaceSpan, htake, hrest, List.append_assoc]
  generalize (replaceSpans t fs).drop j = back at hput
  refine ⟨back, ?_⟩
  have hsplit : replaceSpans t es = replaceSpans (replaceSpans t (e :: fs)) ds := by
    rw [← replaceSpans_append, ← hes]
  rw [hsplit, hput, ← hbefore, replaceSpans_before apart (by omega)]
  simp only [List.append_assoc]

/-- The name of a reference ends before a byte that belongs to no name. -/
theorem stop_le_of_usage (he : e ∈ usages t) (hstart : e.1.start < i)
    (h : ∃ x, (codeMask t)[i]? = some x ∧ isIdent x = false) : e.1.stop ≤ i := by
  obtain ⟨-, hstop, -, -⟩ := mem_usages_iff.1 he
  obtain ⟨x, hx, hident⟩ := h
  apply Classical.byContradiction
  intro hlong
  have hall : isIdent x = true := ident_of_nameAt hstart (by omega) hx
  rw [hident] at hall
  cases hall

end Flatsheet.Style
