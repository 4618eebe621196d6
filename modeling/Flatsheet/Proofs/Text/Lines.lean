import Flatsheet.Text.Span

/-!
# `Proofs.Text.Lines` — pieces, lines and ends of a text

`unlines_lines` says that splitting into lines loses nothing. Here is the other direction
(`lines_unlines`), how splitting goes with appending (`splitOn_append_cons`), and what trimming leaves at
the ends of a text.
-/

namespace Flatsheet.Text

variable {s x : Char} {t t' : Text}

/-! ## Pieces -/

theorem splitOn_of_not_mem (h : s ∉ t) : splitOn s t = [t] := by
  induction t with
  | nil => rfl
  | cons c r ih =>
    simp only [List.mem_cons, not_or] at h
    rw [splitOn, if_neg (Ne.symm h.1), ih h.2]

theorem splitOn_append_cons (s : Char) (a b : Text) :
    splitOn s (a ++ s :: b) = splitOn s a ++ splitOn s b := by
  induction a with
  | nil => simp [splitOn]
  | cons c r ih =>
    rw [List.cons_append, splitOn, splitOn, ih]
    split
    · rfl
    · cases h : splitOn s r with
      | nil => exact absurd h (splitOn_ne_nil s r)
      | cons p ps => rfl

theorem splitOn_cons_of_ne {c : Char} (h : c ≠ s) (t : Text) :
    ∃ p ps, splitOn s t = p :: ps ∧ splitOn s (c :: t) = (c :: p) :: ps := by
  cases hsplit : splitOn s t with
  | nil => exact absurd hsplit (splitOn_ne_nil s t)
  | cons p ps =>
    refine ⟨p, ps, rfl, ?_⟩
    rw [splitOn, if_neg h, hsplit]

/-- A byte that separates nothing goes to the last piece. -/
theorem splitOn_concat_of_ne (h : x ≠ s) (t : Text) :
    ∃ ps p, splitOn s t = ps ++ [p] ∧ splitOn s (t ++ [x]) = ps ++ [p ++ [x]] := by
  induction t with
  | nil => exact ⟨[], [], rfl, splitOn_of_not_mem (by simpa using Ne.symm h)⟩
  | cons c r ih =>
    obtain ⟨ps, p, hr, hrx⟩ := ih
    by_cases hc : c = s
    · refine ⟨[] :: ps, p, ?_, ?_⟩
      · rw [splitOn, if_pos hc, hr, List.cons_append]
      · rw [List.cons_append, splitOn, if_pos hc, hrx, List.cons_append]
    · cases ps with
      | nil =>
        refine ⟨[], c :: p, ?_, ?_⟩
        · rw [splitOn, if_neg hc, hr]
          rfl
        · rw [List.cons_append, splitOn, if_neg hc, hrx]
          rfl
      | cons q ps =>
        refine ⟨(c :: q) :: ps, p, ?_, ?_⟩
        · rw [splitOn, if_neg hc, hr]
          rfl
        · rw [List.cons_append, splitOn, if_neg hc, hrx]
          rfl

theorem not_mem_of_mem_splitOn {p : Text} (h : p ∈ splitOn s t) : s ∉ p := by
  induction t generalizing p with
  | nil =>
    rw [splitOn, List.mem_singleton] at h
    simp [h]
  | cons c r ih =>
    by_cases hc : c = s
    · rw [splitOn, if_pos hc] at h
      rcases List.mem_cons.1 h with rfl | h
      · simp
      · exact ih h
    · obtain ⟨q, qs, hr, hcr⟩ := splitOn_cons_of_ne hc r
      rw [hcr] at h
      rw [hr] at ih
      rcases List.mem_cons.1 h with rfl | h
      · have hq : s ∉ q := ih List.mem_cons_self
        simp only [List.mem_cons, not_or]
        exact ⟨Ne.symm hc, hq⟩
      · exact ih (List.mem_cons_of_mem _ h)

/-! ## Lines -/

/-- **Lines that are put together are the lines of the text.** -/
theorem lines_unlines {ls : List Text} (hne : ls ≠ []) (h : ∀ l ∈ ls, '\n' ∉ l) :
    lines (unlines ls) = ls := by
  induction ls with
  | nil => exact absurd rfl hne
  | cons l ls ih =>
    have hl : '\n' ∉ l := h l List.mem_cons_self
    by_cases hnone : ls = []
    · rw [hnone]
      exact splitOn_of_not_mem hl
    · have hls : lines (unlines ls) = ls := ih hnone fun m hm => h m (List.mem_cons_of_mem l hm)
      rw [unlines_cons l hnone, lines, splitOn_append_cons, splitOn_of_not_mem hl]
      exact congrArg (l :: ·) hls

theorem lines_ne_nil (t : Text) : lines t ≠ [] := splitOn_ne_nil '\n' t

/-- The text before its last line. -/
theorem lastLine_spec (t : Text) : ∃ front, t = front ++ lastLine t ∧
    t.take (t.length - (lastLine t).length) = front ∧ (front = [] ∨ ∃ a, front = a ++ ['\n']) ∧
    '\n' ∉ lastLine t := by
  have hcut : t = (t.reverse.dropWhile (· ≠ '\n')).reverse ++ lastLine t := by
    rw [lastLine, ← List.reverse_append, List.takeWhile_append_dropWhile, List.reverse_reverse]
  refine ⟨(t.reverse.dropWhile (· ≠ '\n')).reverse, hcut, ?_, ?_, ?_⟩
  · have hlength := congrArg List.length hcut
    rw [List.length_append] at hlength
    have hfront := Nat.eq_sub_of_add_eq hlength.symm
    exact (congrArg (List.take _) hcut).trans (List.take_left' hfront)
  · cases hrest : t.reverse.dropWhile (· ≠ '\n') with
    | nil => exact .inl rfl
    | cons c r =>
      have hhead := List.head?_dropWhile_not (fun x : Char => decide (x ≠ '\n')) t.reverse
      rw [hrest] at hhead
      have hc : c = '\n' := by simpa using hhead
      exact .inr ⟨r.reverse, by rw [List.reverse_cons, hc]⟩
  · intro h
    rw [lastLine, List.mem_reverse] at h
    have hall := List.all_eq_true.1 List.all_takeWhile '\n' h
    simp at hall

/-- The text after its first line, which may be its last line too. -/
theorem firstLine_spec (t : Text) : '\n' ∉ firstLine t ∧
    (t = firstLine t ∧ t.drop ((firstLine t).length + 1) = [] ∨
      t = firstLine t ++ '\n' :: t.drop ((firstLine t).length + 1)) := by
  have hcut : t = firstLine t ++ t.dropWhile (· ≠ '\n') := by
    rw [firstLine, List.takeWhile_append_dropWhile]
  constructor
  · intro h
    have hall := List.all_eq_true.1 List.all_takeWhile '\n' h
    simp at hall
  · cases hrest : t.dropWhile (· ≠ '\n') with
    | nil =>
      rw [hrest, List.append_nil] at hcut
      refine .inl ⟨hcut, ?_⟩
      rw [← hcut]
      exact List.drop_of_length_le (Nat.le_succ _)
    | cons c r =>
      have hhead := List.head?_dropWhile_not (fun x : Char => decide (x ≠ '\n')) t
      rw [hrest] at hhead
      have hc : c = '\n' := by simpa using hhead
      rw [hrest, hc] at hcut
      have hdrop : t.drop (firstLine t).length = '\n' :: r :=
        (congrArg (List.drop _) hcut).trans (List.drop_left' rfl)
      have hrest : t.drop ((firstLine t).length + 1) = r := by
        rw [← List.drop_drop, hdrop]
        rfl
      rw [hrest]
      exact .inr hcut

/-! ## Places in lines -/

/-- Lines with a line feed behind each of them. -/
def ended (ls : List Text) : Text := ls.flatMap (· ++ ['\n'])

theorem ended_cons (l : Text) (ls : List Text) : ended (l :: ls) = l ++ '\n' :: ended ls := by
  rw [ended, List.flatMap_cons, List.append_assoc]
  rfl

theorem ended_append (ls ls' : List Text) : ended (ls ++ ls') = ended ls ++ ended ls' := List.flatMap_append

theorem ended_singleton (l : Text) : ended [l] = l ++ ['\n'] := List.append_nil _

theorem ended_concat (ls : List Text) (l : Text) : ended (ls ++ [l]) = ended ls ++ (l ++ ['\n']) := by
  rw [ended_append, ended_singleton]

theorem lines_ended {ls : List Text} (h : ∀ l ∈ ls, '\n' ∉ l) (t : Text) : lines (ended ls ++ t) = ls ++ lines t := by
  induction ls with
  | nil => rfl
  | cons l ls ih =>
    have hl := splitOn_of_not_mem (h l List.mem_cons_self)
    have hrest := ih fun m hm => h m (List.mem_cons_of_mem l hm)
    rw [ended_cons, List.append_assoc, List.cons_append, lines, splitOn_append_cons, hl, ← lines, hrest]
    rfl

theorem lastLine_append (ls : List Text) (h : '\n' ∉ t) : lastLine (ended ls ++ t) = t := by
  have hall : ∀ x ∈ t.reverse, decide (x ≠ '\n') = true := by
    intro x hx
    rw [decide_eq_true_eq]
    rintro rfl
    exact h (List.mem_reverse.1 hx)
  have hnone : (ended ls).reverse.takeWhile (· ≠ '\n') = [] := by
    rcases List.eq_nil_or_concat ls with rfl | ⟨ls, l, rfl⟩
    · rfl
    · rw [List.concat_eq_append, ended_concat, ← List.append_assoc, List.reverse_append]
      rfl
  rw [lastLine, List.reverse_append, List.takeWhile_append_of_pos hall, hnone, List.append_nil, List.reverse_reverse]

theorem firstLine_append_left (h : '\n' ∉ t) (r : Text) : firstLine (t ++ r) = t ++ firstLine r := by
  have hall : ∀ x ∈ t, decide (x ≠ '\n') = true := by
    intro x hx
    rw [decide_eq_true_eq]
    rintro rfl
    exact h hx
  exact List.takeWhile_append_of_pos hall

theorem firstLine_append {r : Text} (h : '\n' ∉ t) (hr : r = [] ∨ ∃ r', r = '\n' :: r') : firstLine (t ++ r) = t := by
  rw [firstLine_append_left h]
  rcases hr with rfl | ⟨r', rfl⟩ <;> simp [firstLine]

/-- A line in its text. -/
theorem eq_of_lines {before after : List Text} {l : Text} (h : lines t = before ++ l :: after) :
    ∃ r, t = ended before ++ (l ++ r) ∧ (r = [] ∨ ∃ r', r = '\n' :: r') := by
  have ht : t = unlines (before ++ l :: after) := by rw [← h, unlines_lines]
  rw [ht]
  clear h ht
  induction before with
  | nil =>
    cases after with
    | nil => exact ⟨[], (List.append_nil l).symm, .inl rfl⟩
    | cons m after => exact ⟨_, rfl, .inr ⟨_, rfl⟩⟩
  | cons b before ih =>
    obtain ⟨r, hr, hend⟩ := ih
    refine ⟨r, ?_, hend⟩
    rw [List.cons_append, unlines_cons b (by simp), hr, ended_cons, List.append_assoc]
    rfl

/-- **A place on a line**: what stands before it and behind it on the line. -/
theorem place_of_lines {before after : List Text} {l : Text} {i col : Nat} (h : lines t = before ++ l :: after)
    (hi : i = (ended before).length + col) (hcol : col ≤ l.length) :
    t.take i = ended before ++ l.take col ∧ lastLine (t.take i) = l.take col ∧ firstLine (t.drop i) = l.drop col := by
  obtain ⟨r, ht, hend⟩ := eq_of_lines h
  have hmem : l ∈ lines t := by
    rw [h]
    exact List.mem_append_right _ List.mem_cons_self
  have hline : '\n' ∉ l := not_mem_of_mem_splitOn hmem
  have htake : t.take i = ended before ++ l.take col := by
    rw [ht, hi, List.take_length_add_append, List.take_append_of_le_length hcol]
  refine ⟨htake, ?_, ?_⟩
  · rw [htake]
    exact lastLine_append before fun hx => hline (List.mem_of_mem_take hx)
  · rw [ht, hi, List.drop_length_add_append, List.drop_append_of_le_length hcol]
    exact firstLine_append (fun hx => hline (List.mem_of_mem_drop hx)) hend

/-- **Each place is on a line.** -/
theorem exists_line (t : Text) {i : Nat} (hi : i ≤ t.length) : ∃ before l after col,
    lines t = before ++ l :: after ∧ i = (ended before).length + col ∧ col ≤ l.length := by
  have hne := lines_ne_nil t
  have ht := unlines_lines t
  generalize hls : lines t = ls at hne ht
  subst ht
  clear hls
  induction ls generalizing i with
  | nil => exact absurd rfl hne
  | cons l ls ih =>
    by_cases hshort : i ≤ l.length
    · exact ⟨[], l, ls, i, rfl, (Nat.zero_add i).symm, hshort⟩
    · have hls : ls ≠ [] := by
        rintro rfl
        exact hshort hi
      rw [unlines_cons l hls, List.length_append, List.length_cons] at hi
      obtain ⟨before, l', after, col, hcut, hplace, hcol⟩ := ih (i := i - (l.length + 1)) hls (by omega)
      refine ⟨l :: before, l', after, col, by rw [hcut]; rfl, ?_, hcol⟩
      rw [ended_cons, List.length_append, List.length_cons]
      omega

/-- A text by its whole lines and the last one. -/
theorem exists_lastLine (t : Text) : ∃ ls, t = ended ls ++ lastLine t ∧ (∀ l ∈ ls, '\n' ∉ l) ∧ '\n' ∉ lastLine t ∧
    lines t = ls ++ [lastLine t] := by
  obtain ⟨before, l, after, col, hlines, hplace, hcol⟩ := exists_line t (Nat.le_refl t.length)
  obtain ⟨htake, hlast, -⟩ := place_of_lines hlines hplace hcol
  rw [List.take_length] at htake hlast
  have hnone : ∀ l' ∈ before ++ l :: after, '\n' ∉ l' := by
    intro l' hl'
    rw [← hlines] at hl'
    exact not_mem_of_mem_splitOn hl'
  have hbefore : ∀ l' ∈ before, '\n' ∉ l' := fun l' hl' => hnone l' (List.mem_append_left _ hl')
  have hend : '\n' ∉ lastLine t := by
    rw [hlast]
    exact fun hmem => hnone l (List.mem_append_right _ List.mem_cons_self) (List.mem_of_mem_take hmem)
  rw [← hlast] at htake
  refine ⟨before, htake, hbefore, hend, ?_⟩
  conv =>
    lhs
    rw [htake, lines_ended hbefore, lines, splitOn_of_not_mem hend]

/-- What follows the beginning of a line. -/
theorem lines_append (h : '\n' ∉ t) (r : Text) : ∃ after, lines (t ++ r) = (t ++ firstLine r) :: after := by
  obtain ⟨hfirst, hcut⟩ := firstLine_spec r
  have hline : '\n' ∉ t ++ firstLine r := by
    rw [List.mem_append, not_or]
    exact ⟨h, hfirst⟩
  rcases hcut with ⟨hall, -⟩ | hcut
  · rw [← hall] at hline ⊢
    exact ⟨[], splitOn_of_not_mem hline⟩
  · refine ⟨lines (r.drop ((firstLine r).length + 1)), ?_⟩
    conv =>
      lhs
      rw [hcut]
    rw [← List.append_assoc, lines, splitOn_append_cons, splitOn_of_not_mem hline]
    rfl

/-! ## Ends -/

theorem isBlank_of_isSpaceOrTab (h : isSpaceOrTab x = true) : isBlank x = true ∧ x ≠ '\n' := by
  simp only [isSpaceOrTab, Bool.or_eq_true, decide_eq_true_eq] at h
  rcases h with rfl | rfl <;> decide

theorem trimRight_concat (t : Text) (x : Char) :
    trimRight (t ++ [x]) = if isBlank x then trimRight t else t ++ [x] := by
  rw [trimRight, List.reverse_append, List.reverse_singleton, List.singleton_append, List.dropWhile_cons]
  split
  · rfl
  · rw [List.reverse_cons, List.reverse_reverse]

/-- What is trimmed at the right is blank. -/
theorem eq_trimRight_append (t : Text) : ∃ blanks, t = trimRight t ++ blanks ∧
    ∀ c ∈ blanks, isBlank c = true := by
  refine ⟨(t.reverse.takeWhile isBlank).reverse, ?_, ?_⟩
  · rw [trimRight, ← List.reverse_append, List.takeWhile_append_dropWhile, List.reverse_reverse]
  · intro c hc
    rw [List.mem_reverse] at hc
    exact List.all_eq_true.1 List.all_takeWhile c hc

/-- What is trimmed at the left is blank. -/
theorem eq_append_trimLeft (t : Text) : ∃ blanks, t = blanks ++ trimLeft t ∧
    ∀ c ∈ blanks, isBlank c = true :=
  ⟨t.takeWhile isBlank, List.takeWhile_append_dropWhile.symm,
    fun c hc => List.all_eq_true.1 List.all_takeWhile c hc⟩

theorem not_blank_of_trimLeft (h : trimLeft t = x :: t') : isBlank x = false := by
  have hhead := List.head?_dropWhile_not isBlank t
  rw [← trimLeft, h] at hhead
  simpa using hhead

theorem not_blank_of_trimRight (h : trimRight t = t' ++ [x]) : isBlank x = false := by
  have hhead := List.head?_dropWhile_not isBlank t.reverse
  have hrev : t.reverse.dropWhile isBlank = x :: t'.reverse := by
    rw [← List.reverse_reverse (t.reverse.dropWhile isBlank), ← trimRight, h]
    simp
  rw [hrev] at hhead
  simpa using hhead

theorem trimRight_trimRight (t : Text) : trimRight (trimRight t) = trimRight t := by
  rcases List.eq_nil_or_concat (trimRight t) with h | ⟨front, x, h⟩
  · rw [h]
    rfl
  · rw [h, List.concat_eq_append, trimRight_concat, not_blank_of_trimRight (by rw [h, List.concat_eq_append])]
    rfl

/-- A text that ends with no blank is trimmed at the right already. -/
theorem trimRight_eq_self (h : t.getLast?.any isBlank = false) : trimRight t = t := by
  rcases List.eq_nil_or_concat t with rfl | ⟨front, x, rfl⟩
  · rfl
  · rw [List.concat_eq_append, List.getLast?_concat, Option.any_some] at h
    rw [List.concat_eq_append, trimRight_concat, h, if_neg Bool.false_ne_true]

/-- A text that begins with no blank is trimmed at the left already. -/
theorem trim_eq_trimRight (h : t.head?.any isBlank = false) : trim t = trimRight t := by
  have hleft : trimLeft t = t := by
    cases t with
    | nil => rfl
    | cons x r => exact List.dropWhile_cons_of_neg (by simpa using h)
  rw [trim, hleft]

theorem head?_trim (t : Text) : (trim t).head?.any isBlank = false := by
  obtain ⟨back, hback, -⟩ := eq_trimRight_append (trimLeft t)
  cases htrim : trim t with
  | nil => rfl
  | cons x r =>
    rw [← trim, htrim, List.cons_append] at hback
    exact not_blank_of_trimLeft hback

theorem trim_trim (t : Text) : trim (trim t) = trim t := by
  rw [trim_eq_trimRight (head?_trim t), trim, trimRight_trimRight]

theorem trim_ne_nil (hx : x ∈ t) (blank : isBlank x = false) : trim t ≠ [] := by
  intro hnil
  obtain ⟨front, hfront, hfrontBlank⟩ := eq_append_trimLeft t
  obtain ⟨back, hback, hbackBlank⟩ := eq_trimRight_append (trimLeft t)
  rw [hfront, hback, ← trim, hnil, List.nil_append, List.mem_append] at hx
  rcases hx with hx | hx
  · exact Bool.false_ne_true (blank.symm.trans (hfrontBlank x hx))
  · exact Bool.false_ne_true (blank.symm.trans (hbackBlank x hx))

end Flatsheet.Text
