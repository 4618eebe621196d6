import Flatsheet.Proofs.Text.LineZones
import Flatsheet.Repair.Line

/-!
# `Proofs.Repair.Parentheses` — when balancing the parentheses of a line balances them

The parentheses of a line are counted in its code, but they are added and taken away in its bytes. What is missing is
put in at the end of the line, before its semicolons, braces and spaces, and it counts only if the line is in code there.
What is too much is taken away from the end, and it counts only if it stood in code (`balanced_iff`). Where the end of
the line is a comment or an unfinished string, the line is not balanced, and repairing it once more changes it again
(`comment_unbalances`).

Taking a parenthesis away leaves everything else as it is read, unless the bytes on both sides of it mean something
together (`Joined`).
-/

namespace Flatsheet.Repair

open Text Mask

variable {l t t' u v w : Text} {c : Char} {n : Nat}

/-! ## Parentheses of a line -/

/-- The bytes of the kind `c` in a line, with their zones. -/
def marks (c : Char) (l : Text) : List (Char × Zone) := (zones l).filter (·.1 = c)

/-- The code of the line has as many opening as closing parentheses. -/
def Balanced (l : Text) : Prop := (codeMask l).count '(' = (codeMask l).count ')'

instance (l : Text) : Decidable (Balanced l) :=
  inferInstanceAs (Decidable ((codeMask l).count '(' = (codeMask l).count ')'))

/-- The closing parentheses of the code that have no opening one for them. -/
def excess (l : Text) : Nat := (codeMask l).count ')' - (codeMask l).count '('

/-- The opening parentheses of the code that have no closing one for them. -/
def lacking (l : Text) : Nat := (codeMask l).count '(' - (codeMask l).count ')'

/-- The byte stays behind what is put in at the end of a line. -/
def isEnding (c : Char) : Bool := c = ';' || c = '{' || c = ' '

/-- The line without the semicolons, braces and blanks at its end. -/
def stem (l : Text) : Text := ((trimRight l).reverse.dropWhile isEnding).reverse

/-- The semicolons, braces and spaces at the end of a line. -/
def tail (l : Text) : Text := ((trimRight l).reverse.takeWhile isEnding).reverse

theorem stem_append_tail (l : Text) : stem l ++ tail l = trimRight l := by
  rw [stem, tail, ← List.reverse_append, List.takeWhile_append_dropWhile, List.reverse_reverse]

theorem balanceParens_eq (l : Text) : balanceParens l =
    if Balanced l then l
    else if (codeMask l).count ')' < (codeMask l).count '(' then stem l ++ List.replicate (lacking l) ')' ++ tail l
    else (dropParens (excess l) (stem l).reverse).reverse ++ tail l := by
  rw [stem, List.reverse_reverse]
  rfl

theorem balanceParens_of_lacking (h : 0 < lacking l) :
    balanceParens l = stem l ++ List.replicate (lacking l) ')' ++ tail l := by
  have hlt : (codeMask l).count ')' < (codeMask l).count '(' := Nat.lt_of_sub_pos h
  have hnot : ¬ Balanced l := Nat.ne_of_gt hlt
  rw [balanceParens_eq, if_neg hnot, if_pos hlt]

theorem balanceParens_of_excess (h : 0 < excess l) :
    balanceParens l = (dropParens (excess l) (stem l).reverse).reverse ++ tail l := by
  have hlt : (codeMask l).count '(' < (codeMask l).count ')' := Nat.lt_of_sub_pos h
  have hnot : ¬ Balanced l := Nat.ne_of_lt hlt
  rw [balanceParens_eq, if_neg hnot, if_neg (Nat.lt_asymm hlt)]

/-- A line that is not balanced lacks parentheses or has too many. -/
theorem lacking_or_excess (h : ¬ Balanced l) : 0 < lacking l ∨ 0 < excess l := by
  unfold Balanced at h
  unfold lacking excess
  omega

theorem length_marks (c : Char) (l : Text) : (marks c l).length = l.count c := by
  have hbytes : (zones l).map Prod.fst = l := map_fst_zoned l
  conv_rhs => rw [← hbytes, List.count, List.countP_map, List.countP_eq_length_filter]
  rfl

theorem count_eq_marks (hc : c ≠ ' ') (l : Text) : (codeMask l).count c = (marks c l).count (c, .code) := by
  rw [count_codeMask hc, marks, List.count_filter (by simp)]

/-- What stands behind a text without such bytes makes no difference to them. -/
theorem marks_append (hv : c ∉ v) (hinert : Inert v.head?) : marks c (u ++ v) = marks c u := by
  have hfront : zoned none .code (v.head?.or none) u = zones u :=
    zoned_of_inert quoted_code (by rwa [Option.or_none]) inert_none u
  rw [marks, zones, zoned_append, List.filter_append, filter_zoned hv, List.append_nil, hfront, marks]

theorem mem_tail (h : c ∈ tail l) : c = ';' ∨ c = '{' ∨ c = ' ' := by
  have hend : isEnding c = true := List.all_eq_true.1 List.all_takeWhile c (List.mem_reverse.1 h)
  simpa [isEnding, or_assoc] using hend

theorem mild_tail (h : c ∈ tail l) : Mild c := by
  rcases mem_tail h with rfl | rfl | rfl <;> decide

/-- Behind the stem of a line stand mild bytes and blanks. -/
theorem exists_behind_stem (l : Text) : ∃ blanks, l = stem l ++ (tail l ++ blanks) ∧ (∀ c ∈ blanks, isBlank c = true) ∧
    Inert (tail l ++ blanks).head? := by
  obtain ⟨blanks, hl, hblanks⟩ := eq_trimRight_append l
  refine ⟨blanks, ?_, hblanks, inert_head ?_⟩
  · rw [← List.append_assoc, stem_append_tail]
    exact hl
  · intro x hx
    rcases List.mem_append.1 hx with hx | hx
    · exact (mild_tail hx).inert
    · exact inert_of_blank (hblanks x hx)

/-- **The parentheses of a line are those of its stem.** -/
theorem marks_stem (hc : c = '(' ∨ c = ')') (l : Text) : marks c (stem l) = marks c l := by
  obtain ⟨blanks, hl, hblanks, hinert⟩ := exists_behind_stem l
  have hnone : c ∉ tail l ++ blanks := by
    intro hmem
    rcases List.mem_append.1 hmem with hmem | hmem
    · rcases mem_tail hmem with rfl | rfl | rfl <;> revert hc <;> decide
    · have hblank := hblanks c hmem
      rcases hc with rfl | rfl <;> cases hblank
  exact (marks_append hnone hinert).symm.trans (congrArg (marks c) hl.symm)

theorem marks_append_tail (hc : c = '(' ∨ c = ')') (t l : Text) : marks c (t ++ tail l) = marks c t := by
  apply marks_append
  · intro hmem
    rcases mem_tail hmem with rfl | rfl | rfl <;> revert hc <;> decide
  · exact inert_head fun x hx => (mild_tail hx).inert

/-- The parentheses of the code are balanced if the marks are. -/
theorem balanced_iff_marks (l : Text) :
    Balanced l ↔ (marks '(' l).count ('(', .code) = (marks ')' l).count (')', .code) := by
  rw [Balanced, count_eq_marks (by decide), count_eq_marks (by decide)]

/-! ## Putting parentheses in -/

/-- **Parentheses that are put in at the end of a text count** if the text ends in code. -/
theorem count_put (t : Text) (n : Nat) : (marks ')' (t ++ List.replicate (n + 1) ')')).count (')', .code) =
    (marks ')' t).count (')', .code) + if State.after none .code (some ')') t = .code then n + 1 else 0 := by
  have hhead : (List.replicate (n + 1) ')').head? = some ')' := rfl
  have hfront : zoned none .code (some ')') t = zones t :=
    zoned_of_inert quoted_code (Mild.inert (by decide)) inert_none t
  have hopen : State.after none .code (some ')') t ≠ .closing := fun hclosing => by cases after_closing hclosing
  rw [marks, marks, List.count_filter (by simp), List.count_filter (by simp), zones, zoned_append, hhead, Option.some_or,
    hfront, List.count_append]
  congr 1
  split
  · next hcode =>
    have hplain : Plain (List.replicate (n + 1) ')') := by
      intro x hx
      rw [List.eq_of_mem_replicate hx]
      decide
    rw [hcode, zoned_of_plain hplain, List.map_replicate, List.count_replicate_self]
  · next hcode =>
    apply count_zoned_mild (State.Quoted.after quoted_code t) ⟨hcode, hopen⟩ _ rfl
    intro x hx
    rw [List.eq_of_mem_replicate hx]
    decide

/-- They make no difference to the opening ones. -/
theorem marks_put (t : Text) (n : Nat) : marks '(' (t ++ List.replicate n ')') = marks '(' t := by
  apply marks_append
  · intro hmem
    cases List.eq_of_mem_replicate hmem
  · refine inert_head fun x hx => ?_
    rw [List.eq_of_mem_replicate hx]
    exact Mild.inert (by decide)

/-! ## Taking parentheses away -/

/-- **The last `n` closing parentheses of a text are taken away**, none of them from between bytes that mean something
together. -/
inductive LastOut : Nat → Text → Text → Prop
  | none (t : Text) : LastOut 0 t t
  | one {n : Nat} {u v t : Text} (hv : ')' ∉ v) (hunlinked : ¬ Linked u.getLast? v.head?) (rest : LastOut n (u ++ v) t) :
      LastOut (n + 1) (u ++ ')' :: v) t

/-- **What is taken away are the last closing parentheses**, and all others stand where they stood. -/
theorem LastOut.marks (h : LastOut n t t') : marks '(' t' = marks '(' t ∧
    ∃ removed, removed.length = n ∧ marks ')' t = marks ')' t' ++ removed := by
  induction h with
  | none t => exact ⟨rfl, [], rfl, (List.append_nil _).symm⟩
  | @one n u v t hv hunlinked rest ih =>
    obtain ⟨hopen, removed, hlength, hclose⟩ := ih
    obtain ⟨z, front, back, hwith, hwithout, -, hback⟩ := zones_put (c := ')') (by decide) hunlinked
    have hnone : back.filter (·.1 = ')') = [] := by
      rw [List.filter_eq_nil_iff]
      rintro ⟨x, y⟩ hmem
      rw [decide_eq_true_eq]
      rintro rfl
      apply hv
      rw [← hback]
      exact List.mem_map_of_mem hmem
    refine ⟨?_, removed ++ [(')', z)], by simp [hlength], ?_⟩
    · rw [hopen, Repair.marks, Repair.marks, hwith, hwithout]
      simp
    · have hfront : Repair.marks ')' (u ++ v) = front.filter (·.1 = ')') := by
        rw [Repair.marks, hwithout, List.filter_append, hnone, List.append_nil]
      rw [← List.append_assoc, ← hclose, hfront, Repair.marks, hwith]
      simp [hnone]

/-- Bytes that mean something together come together if the last `n` closing parentheses of the text are taken away. -/
def Joined (n : Nat) (t : Text) : Prop :=
  ∃ u r, t = u ++ ')' :: r ∧ r.count ')' < n ∧ Linked u.getLast? (r.dropWhile (· = ')')).head?

/-- **Unless bytes are joined, parentheses are taken away one by one**, the last one first. -/
theorem lastOut_dropParens (n : Nat) (w : Text) (hv : ')' ∉ v) (hn : n ≤ w.count ')')
    (h : ∀ u r, w.reverse = u ++ ')' :: r → r.count ')' < n →
      ¬ Linked u.getLast? ((r ++ v).dropWhile (· = ')')).head?) :
    LastOut n (w.reverse ++ v) ((dropParens n w).reverse ++ v) := by
  -- the text is read from its end, so what is behind the last parenthesis grows along the induction
  fun_induction dropParens n w generalizing v with
  | case1 n =>
    obtain rfl : n = 0 := Nat.le_zero.1 hn
    exact .none _
  | case2 => exact .none _
  | case3 n r hpos ih =>
    obtain ⟨k, rfl⟩ := Nat.exists_eq_succ_of_ne_zero hpos
    have hstop : v.dropWhile (· = ')') = v := by
      cases v with
      | nil => rfl
      | cons x v =>
        rw [List.mem_cons, not_or] at hv
        exact List.dropWhile_cons_of_neg (by simpa using Ne.symm hv.1)
    have hunlinked : ¬ Linked r.reverse.getLast? v.head? := by
      have hlast := h r.reverse [] List.reverse_cons (Nat.succ_pos k)
      rwa [List.nil_append, hstop] at hlast
    have hrest : LastOut k (r.reverse ++ v) ((dropParens k r).reverse ++ v) := by
      apply ih hv
      · rw [List.count_cons_self] at hn
        exact Nat.le_of_succ_le_succ hn
      · intro u r' hcut hcount hlinked
        -- the parentheses between this one and the end go as well, so they do not count as neighbours
        have hbehind : ((r' ++ [')'] ++ v).dropWhile (· = ')')).head? = ((r' ++ v).dropWhile (· = ')')).head? := by
          have hboth : ∀ t : Text, (r' ++ t).dropWhile (· = ')') =
              if (r'.dropWhile (· = ')')).isEmpty then t.dropWhile (· = ')') else r'.dropWhile (· = ')') ++ t :=
            fun t => List.dropWhile_append
          rw [List.append_assoc, hboth, hboth]
          split
          · rfl
          · next hsome =>
            have hne : r'.dropWhile (· = ')') ≠ [] := fun hnil => hsome (List.isEmpty_iff.2 hnil)
            rw [head?_append_left hne, head?_append_left hne]
        apply h u (r' ++ [')'])
        · rw [List.reverse_cons, hcut, List.append_assoc, List.cons_append]
        · rw [List.count_append, List.count_singleton_self]
          exact Nat.succ_lt_succ hcount
        · rw [hbehind]
          exact hlinked
    rw [List.reverse_cons, List.append_assoc, List.singleton_append]
    exact .one hv hunlinked hrest
  | case4 n c r hpos hparen ih =>
    have hrest := ih (v := c :: v) (by simp [hv, Ne.symm hparen]) (by rwa [List.count_cons_of_ne hparen] at hn) ?_
    · rw [List.reverse_cons, List.reverse_cons, List.append_assoc, List.append_assoc]
      exact hrest
    · intro u r' hcut hcount
      rw [← List.singleton_append, ← List.append_assoc]
      apply h u (r' ++ [c])
      · rw [List.reverse_cons, hcut, List.append_assoc, List.cons_append]
      · rw [List.count_append, List.count_singleton, if_neg (by simpa using hparen)]
        exact hcount

instance (n : Nat) (t : Text) : Decidable (Joined n t) :=
  decidable_of_iff (∃ i < t.length, t[i]? = some ')' ∧ (t.drop (i + 1)).count ')' < n ∧
      Linked (t.take i).getLast? ((t.drop (i + 1)).dropWhile (· = ')')).head?) <| by
    constructor
    · rintro ⟨i, hi, hparen, hcount, hlinked⟩
      refine ⟨t.take i, t.drop (i + 1), ?_, hcount, hlinked⟩
      rw [List.getElem?_eq_getElem hi, Option.some_inj] at hparen
      rw [← hparen, ← List.drop_eq_getElem_cons hi, List.take_append_drop]
    · rintro ⟨u, r, rfl, hcount, hlinked⟩
      have hdrop : (u ++ ')' :: r).drop (u.length + 1) = r := by simp
      refine ⟨u.length, by simp, by simp, ?_, ?_⟩
      · rwa [hdrop]
      · rwa [hdrop, List.take_left]

theorem Joined.append (h : Joined n t) (hend : ')' ∉ v) : Joined n (t ++ v) := by
  obtain ⟨u, r, rfl, hcount, hlinked⟩ := h
  refine ⟨u, r ++ v, by simp, ?_, ?_⟩
  · rwa [List.count_append, List.count_eq_zero.2 hend, Nat.add_zero]
  · rw [List.dropWhile_append]
    split
    · next hempty =>
      rw [List.isEmpty_iff.1 hempty] at hlinked
      simp [Linked] at hlinked
    · next hsome =>
      have hne : r.dropWhile (· = ')') ≠ [] := fun hnil => hsome (List.isEmpty_iff.2 hnil)
      rwa [head?_append_left hne]

theorem not_mem_tail (l : Text) : ')' ∉ tail l := by
  intro hmem
  rcases mem_tail hmem with h | h | h <;> cases h

/-- The stem holds all parentheses of the line, those of its code among them. -/
theorem excess_le (l : Text) : excess l ≤ (stem l).reverse.count ')' := by
  have hcode : (codeMask l).count ')' ≤ (marks ')' l).length := by
    rw [count_eq_marks (by decide)]
    exact List.count_le_length
  rw [← marks_stem (.inr rfl), length_marks] at hcode
  rw [List.count_reverse, excess]
  omega

/-- **The parentheses that are too much are taken away from the end of the line**, unless bytes are joined. -/
theorem lastOut_of_excess (h : 0 < excess l) (hjoined : ¬ Joined (excess l) l) :
    LastOut (excess l) (stem l ++ tail l) (balanceParens l) := by
  rw [balanceParens_of_excess h]
  have hout := lastOut_dropParens (excess l) (stem l).reverse (not_mem_tail l) (excess_le l)
  rw [List.reverse_reverse] at hout
  apply hout
  intro u r hcut hlt hlinked
  obtain ⟨blanks, hl, hblanks, -⟩ := exists_behind_stem l
  have hwhole : Joined (excess l) (stem l ++ tail l) := by
    refine ⟨u, r ++ tail l, by rw [hcut, List.append_assoc, List.cons_append], ?_, hlinked⟩
    rwa [List.count_append, List.count_eq_zero.2 (not_mem_tail l), Nat.add_zero]
  have hback : ')' ∉ blanks := fun hmem => by cases hblanks ')' hmem
  have hline := hwhole.append hback
  rw [List.append_assoc, ← hl] at hline
  exact hjoined hline

/-! ## Balancing -/

theorem count_dropParens (n : Nat) (w : Text) : (dropParens n w).count ')' = w.count ')' - n := by
  fun_induction dropParens n w with
  | case1 n => exact (Nat.zero_sub n).symm
  | case2 => rfl
  | case3 n r hpos ih =>
    rw [ih, List.count_cons_self]
    omega
  | case4 n c r hpos hparen ih => rw [List.count_cons_of_ne hparen, List.count_cons_of_ne hparen, ih]

/-- A line is left as it is exactly if it is balanced already. -/
theorem balanceParens_eq_self_iff (l : Text) : balanceParens l = l ↔ Balanced l := by
  constructor
  · intro hsame
    by_contra hnot
    -- otherwise it has more closing parentheses afterwards, or less
    have hraw : (balanceParens l).count ')' = (stem l).count ')' := by
      rw [hsame, ← length_marks, ← length_marks, marks_stem (.inr rfl)]
    have htail : (tail l).count ')' = 0 := List.count_eq_zero.2 (not_mem_tail l)
    rcases lacking_or_excess hnot with hlacking | hexcess
    · rw [balanceParens_of_lacking hlacking, List.count_append, List.count_append, List.count_replicate_self,
        htail] at hraw
      omega
    · have hle := excess_le l
      rw [balanceParens_of_excess hexcess, List.count_append, List.count_reverse, count_dropParens, htail] at hraw
      rw [List.count_reverse] at hraw hle
      omega
  · intro h
    rw [balanceParens_eq, if_pos h]

/-- **Parentheses that are put in balance the line** exactly if their place is in code. -/
theorem balanced_of_lacking (h : 0 < lacking l) :
    Balanced (balanceParens l) ↔ State.after none .code (some ')') (stem l) = .code := by
  obtain ⟨n, hn⟩ : ∃ n, lacking l = n + 1 := Nat.exists_eq_succ_of_ne_zero (Nat.ne_of_gt h)
  have hopen : (marks '(' (balanceParens l)).count ('(', .code) = (codeMask l).count '(' := by
    rw [balanceParens_of_lacking h, marks_append_tail (.inl rfl), marks_put, marks_stem (.inl rfl),
      ← count_eq_marks (by decide)]
  have hclose : (marks ')' (balanceParens l)).count (')', .code) =
      (codeMask l).count ')' + if State.after none .code (some ')') (stem l) = .code then n + 1 else 0 := by
    rw [balanceParens_of_lacking h, marks_append_tail (.inr rfl), hn, count_put, marks_stem (.inr rfl),
      ← count_eq_marks (by decide)]
  rw [balanced_iff_marks, hopen, hclose]
  rw [lacking] at hn
  split
  · next hcode =>
    simp only [hcode, iff_true]
    omega
  · next hcode =>
    simp only [hcode, iff_false]
    omega

/-- **Parentheses that are taken away balance the line** exactly if all of them stand in code. -/
theorem balanced_of_excess (h : 0 < excess l) (hjoined : ¬ Joined (excess l) l) : Balanced (balanceParens l) ↔
    ∀ b ∈ (marks ')' l).drop ((marks ')' l).length - excess l), b.2 = .code := by
  obtain ⟨hopen, removed, hlength, hclose⟩ := (lastOut_of_excess h hjoined).marks
  rw [marks_append_tail (.inl rfl), marks_stem (.inl rfl)] at hopen
  rw [marks_append_tail (.inr rfl), marks_stem (.inr rfl)] at hclose
  have hlast : (marks ')' l).drop ((marks ')' l).length - excess l) = removed := by
    rw [hclose, List.length_append, hlength, Nat.add_sub_cancel, List.drop_left]
  have hcount : (codeMask l).count ')' =
      (marks ')' (balanceParens l)).count (')', .code) + removed.count (')', .code) := by
    rw [count_eq_marks (by decide), hclose, List.count_append]
  have hparen : ∀ b ∈ removed, b.1 = ')' := by
    intro b hb
    have hmem : b ∈ marks ')' l := hclose ▸ List.mem_append_right _ hb
    simpa using (List.mem_filter.1 hmem).2
  have hall : removed.count (')', .code) = removed.length ↔ ∀ b ∈ removed, b.2 = .code := by
    rw [List.count_eq_length]
    refine forall₂_congr fun b hb => ?_
    rw [Prod.ext_iff, hparen b hb]
    simp [eq_comm]
  have hle : removed.count (')', Zone.code) ≤ removed.length := List.count_le_length
  rw [balanced_iff_marks, hopen, ← count_eq_marks (by decide), hlast, ← hall, hlength]
  rw [excess] at h hlength ⊢
  omega

/-- **Balancing the parentheses of a line.** It leaves the line as it is exactly if the line is balanced already, so doing
it twice is doing it once exactly if the result is balanced. Where parentheses are lacking, that is so exactly if the
place where they are put in is in code; where there are too many, exactly if the last ones of the line, as many as are too
much, are all in code. -/
theorem balanceParens_balances (l : Text) :
    (balanceParens l = l ↔ Balanced l) ∧
    (balanceParens (balanceParens l) = balanceParens l ↔ Balanced (balanceParens l)) ∧
    (0 < lacking l → (Balanced (balanceParens l) ↔ State.after none .code (some ')') (stem l) = .code)) ∧
    (0 < excess l → ¬ Joined (excess l) l → (Balanced (balanceParens l) ↔
      ∀ b ∈ (marks ')' l).drop ((marks ')' l).length - excess l), b.2 = .code)) :=
  ⟨balanceParens_eq_self_iff l, balanceParens_eq_self_iff _, balanced_of_lacking, balanced_of_excess⟩

theorem balanced_with_and_without : Balanced (balanceParens "a: f((b; \x7b".toList) ∧
    Balanced (balanceParens "a: f(/* (b) */ c)); // d".toList) ∧
    ¬ Balanced (balanceParens "a: f(b; // c".toList) := by
  obtain ⟨-, -, hlacking, -⟩ := balanceParens_balances "a: f((b; \x7b".toList
  obtain ⟨-, -, -, hexcess⟩ := balanceParens_balances "a: f(/* (b) */ c)); // d".toList
  obtain ⟨-, -, hcomment, -⟩ := balanceParens_balances "a: f(b; // c".toList
  refine ⟨?_, ?_, ?_⟩
  · exact (hlacking (by decide +kernel)).2 (by decide +kernel)
  · exact (hexcess (by decide +kernel) (by decide +kernel)).2 (by decide +kernel)
  · exact fun hbalanced => absurd ((hcomment (by decide +kernel)).1 hbalanced) (by decide +kernel)

/-- **A parenthesis in a comment at the end of the line is taken away in place of the one that is too much**, and the next
time the same. -/
theorem comment_unbalances : balanceParens "a: b); // see (c)".toList = "a: b); // see (c".toList ∧
    ¬ Balanced (balanceParens "a: b); // see (c)".toList) ∧
    balanceParens (balanceParens "a: b); // see (c)".toList) ≠ balanceParens "a: b); // see (c)".toList := by
  decide +kernel

end Flatsheet.Repair
