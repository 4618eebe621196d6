import Flatsheet.Proofs.Text.Lines
import Flatsheet.Proofs.Text.Seam

/-!
# `Proofs.Text.Cutting` — cutting statements out of a text

With a statement go blanks only: those behind it, and if nothing else is left of its lines, those before it on its
line and the line feed at the end (`eraseStatement_pieces`). So a byte that is not blank parts what is cut before it
from what is cut behind it: the text up to it stays while statements behind it are cut out
(`take_eraseStatements`), and the text from it on stays while statements before it are (`eraseStatements_before`).
-/

namespace Flatsheet.Text

open Mask

variable {t t' x u v front back : Text} {s : Span} {spans : List Span} {i : Nat} {c : Char}

/-! ## Pieces -/

/-- **With a statement go blanks only**, and those before it only back to the beginning of its line. -/
theorem eraseStatement_pieces (t : Text) (s : Span) : ∃ front u v back,
    t.take s.start = front ++ u ∧ t.drop s.stop = v ++ back ∧ eraseStatement t s = front ++ back ∧
      (∀ c ∈ u, isBlank c = true ∧ c ≠ '\n') ∧ (∀ c ∈ v, isBlank c = true) ∧
      (u = [] ∨ front = [] ∨ ∃ a, front = a ++ ['\n']) := by
  simp only [eraseStatement]
  split
  · next hblank =>
    rw [Bool.and_eq_true, List.all_eq_true, List.all_eq_true] at hblank
    obtain ⟨front, hfront, hkept, hbegun, hhead⟩ := lastLine_spec (t.take s.start)
    obtain ⟨-, hrest⟩ := firstLine_spec (t.drop s.stop)
    rw [hkept]
    have hu : ∀ c ∈ lastLine (t.take s.start), isBlank c = true ∧ c ≠ '\n' := by
      intro c hc
      refine ⟨hblank.1 c hc, ?_⟩
      rintro rfl
      exact hhead hc
    -- the statement has its lines to itself, so the line break goes with it
    rcases hrest with ⟨hlast, hnothing⟩ | hmore
    · refine ⟨front, _, firstLine (t.drop s.stop), [], hfront, ?_, ?_, hu, hblank.2, .inr hbegun⟩
      · rw [List.append_nil]
        exact hlast
      · rw [hnothing]
    · refine ⟨front, _, firstLine (t.drop s.stop) ++ ['\n'], _, hfront, ?_, rfl, hu, ?_, .inr hbegun⟩
      · rw [List.append_assoc]
        exact hmore
      · intro c hc
        rcases List.mem_append.1 hc with hc | hc
        · exact hblank.2 c hc
        · rw [List.mem_singleton.1 hc]
          rfl
  · refine ⟨t.take s.start, [], (t.drop s.stop).takeWhile isSpaceOrTab, _, (List.append_nil _).symm,
      List.takeWhile_append_dropWhile.symm, rfl, nofun, ?_, .inl rfl⟩
    intro c hc
    exact (isBlank_of_isSpaceOrTab (List.all_eq_true.1 List.all_takeWhile c hc)).1

theorem eraseStatement_sublist (t : Text) (h : s.start ≤ s.stop) : (eraseStatement t s).Sublist t := by
  obtain ⟨front, u, v, back, hfront, hback, heq, -⟩ := eraseStatement_pieces t s
  have hparts : (front ++ back).Sublist (t.take s.start ++ t.drop s.start) := by
    apply List.Sublist.append
    · rw [hfront]
      exact List.sublist_append_left _ _
    · have hdrop : (t.drop s.stop).Sublist (t.drop s.start) := List.drop_sublist_drop_left t h
      rw [hback] at hdrop
      exact (List.sublist_append_right _ _).trans hdrop
  rw [heq]
  rwa [List.take_append_drop] at hparts

/-- Cutting statements out adds nothing. -/
theorem eraseStatements_sublist (t : Text) (h : ∀ s ∈ spans, s.start ≤ s.stop) :
    (eraseStatements t spans).Sublist t := by
  induction spans with
  | nil => exact List.Sublist.refl t
  | cons s spans ih =>
    have hothers := ih fun s' hs' => h s' (List.mem_cons_of_mem s hs')
    exact (eraseStatement_sublist _ (h s List.mem_cons_self)).trans hothers

/-- The blanks that go do not reach past a byte that is not blank. -/
theorem le_length_of_solid (h : t.take i = (front ++ u).take i) (hi : i ≤ (front ++ u).length)
    (hu : ∀ c ∈ u, isBlank c = true) (solid : ∀ c, byteBefore t i = some c → isBlank c = false) :
    i ≤ front.length := by
  apply Classical.byContradiction
  intro hlong
  -- the byte before would be one of the blanks
  obtain ⟨j, rfl⟩ : ∃ j, i = j + 1 := ⟨i - 1, by omega⟩
  have hj : j < (front ++ u).length := hi
  have hbyte : t[j]? = some (front ++ u)[j] := by
    rw [← List.getElem?_take_of_lt (Nat.lt_succ_self j), h, List.getElem?_take_of_lt (Nat.lt_succ_self j),
      List.getElem?_eq_getElem hj]
  have hblank : (front ++ u)[j] ∈ u := by
    rw [List.getElem_append_right (by omega)]
    exact List.getElem_mem _
  have hsolid := solid _ hbyte
  rw [hu _ hblank] at hsolid
  cases hsolid

/-! ## Statements behind a place -/

/-- What stands before a statement stays, up to a byte that is not blank. -/
theorem take_eraseStatement (hi : i ≤ t.length) (h : i ≤ s.start)
    (solid : ∀ c, byteBefore t i = some c → isBlank c = false) :
    (eraseStatement t s).take i = t.take i ∧ i ≤ (eraseStatement t s).length := by
  obtain ⟨front, u, v, back, hfront, -, heq, hu, -⟩ := eraseStatement_pieces t s
  have htake : t.take i = (front ++ u).take i := by
    rw [← hfront, List.take_take, Nat.min_eq_left h]
  have hlength : i ≤ (front ++ u).length := by
    rw [← hfront, List.length_take]
    omega
  have hkept : i ≤ front.length := le_length_of_solid htake hlength (fun c hc => (hu c hc).1) solid
  rw [heq, List.take_append_of_le_length hkept, htake, List.take_append_of_le_length hkept, List.length_append]
  exact ⟨rfl, by omega⟩

theorem byteBefore_congr (h : t'.take i = t.take i) : byteBefore t' i = byteBefore t i := by
  cases i with
  | zero => rfl
  | succ j =>
    show t'[j]? = t[j]?
    rw [← List.getElem?_take_of_lt (Nat.lt_succ_self j), h, List.getElem?_take_of_lt (Nat.lt_succ_self j)]

/-- The byte behind one that is not blank stays too: if it is blank, it is not on a line of its own. -/
theorem take_eraseStatement_next (hi : i < t.length) (h : i < s.start)
    (solid : ∃ c, byteBefore t i = some c ∧ isBlank c = false) :
    (eraseStatement t s).take (i + 1) = t.take (i + 1) ∧ i < (eraseStatement t s).length := by
  obtain ⟨front, u, v, back, hfront, -, heq, hu, -, hline⟩ := eraseStatement_pieces t s
  obtain ⟨c, hc, hblank⟩ := solid
  have htake : ∀ {j}, j ≤ s.start → t.take j = (front ++ u).take j := by
    intro j hj
    rw [← hfront, List.take_take, Nat.min_eq_left hj]
  have hlength : i < (front ++ u).length := by
    rw [← hfront, List.length_take]
    omega
  have hkept : i ≤ front.length := by
    apply le_length_of_solid (htake (Nat.le_of_lt h)) (Nat.le_of_lt hlength) fun x hx => (hu x hx).1
    intro x hx
    rw [hc] at hx
    cases hx
    exact hblank
  have hmore : i < front.length := by
    apply Nat.lt_of_le_of_ne hkept
    rintro rfl
    -- the blanks that go begin a line, and the byte before them would be its line feed
    have hbyte : byteBefore (front ++ u) front.length = some c := by
      rw [byteBefore_congr (htake (Nat.le_of_lt h)).symm, hc]
    rcases hline with rfl | rfl | ⟨a, rfl⟩
    · simp at hlength
    · cases hc
    · have hfeed : byteBefore (a ++ ['\n'] ++ u) (a ++ ['\n']).length = some '\n' := by
        rw [List.length_append]
        simp [byteBefore]
      rw [hfeed] at hbyte
      cases hbyte
      cases hblank
  rw [heq, List.take_append_of_le_length hmore, htake h, List.take_append_of_le_length hmore, List.length_append]
  exact ⟨rfl, by omega⟩

theorem take_eraseStatements (hi : i ≤ t.length) (h : ∀ s ∈ spans, i ≤ s.start)
    (solid : ∀ c, byteBefore t i = some c → isBlank c = false) :
    (eraseStatements t spans).take i = t.take i ∧ i ≤ (eraseStatements t spans).length := by
  induction spans with
  | nil => exact ⟨rfl, hi⟩
  | cons s spans ih =>
    obtain ⟨hsame, hlength⟩ := ih fun s' hs' => h s' (List.mem_cons_of_mem s hs')
    have hsolid : ∀ c, byteBefore (eraseStatements t spans) i = some c → isBlank c = false := by
      rw [byteBefore_congr hsame]
      exact solid
    obtain ⟨hsame', hlength'⟩ := take_eraseStatement hlength (h s List.mem_cons_self) hsolid
    exact ⟨hsame'.trans hsame, hlength'⟩

theorem take_eraseStatements_next (hi : i < t.length) (h : ∀ s ∈ spans, i < s.start)
    (solid : ∃ c, byteBefore t i = some c ∧ isBlank c = false) :
    (eraseStatements t spans).take (i + 1) = t.take (i + 1) ∧ i < (eraseStatements t spans).length := by
  induction spans with
  | nil => exact ⟨rfl, hi⟩
  | cons s spans ih =>
    obtain ⟨hsame, hlength⟩ := ih fun s' hs' => h s' (List.mem_cons_of_mem s hs')
    have hshorter : (eraseStatements t spans).take i = t.take i := by
      rw [← Nat.min_eq_left (Nat.le_succ i), ← List.take_take, hsame, List.take_take]
    obtain ⟨hsame', hlength'⟩ := take_eraseStatement_next hlength (h s List.mem_cons_self)
      (byteBefore_congr hshorter ▸ solid)
    exact ⟨hsame'.trans hsame, hlength'⟩

/-! ## Statements before a place -/

/-- Behind a byte that is not blank the text does not matter to a cut. -/
theorem eraseStatement_append (hstop : s.stop ≤ x.length) (hstart : s.start ≤ s.stop) (hc : isBlank c = false)
    (r : Text) : eraseStatement (x ++ c :: r) s = eraseStatement (x ++ [c]) s ++ r := by
  have hline : c ≠ '\n' := by
    rintro rfl
    cases hc
  have hspace : isSpaceOrTab c = false := by
    rw [Bool.eq_false_iff]
    intro h
    rw [(isBlank_of_isSpaceOrTab h).1] at hc
    cases hc
  have htake : ∀ r, (x ++ r).take s.start = x.take s.start := fun r =>
    List.take_append_of_le_length (Nat.le_trans hstart hstop)
  have hdrop : ∀ r, (x ++ r).drop s.stop = x.drop s.stop ++ r := fun r => List.drop_append_of_le_length hstop
  simp only [eraseStatement, htake, hdrop]
  generalize x.drop s.stop = b
  obtain ⟨hnone, hlast | hmore⟩ := firstLine_spec b
  · -- the byte stands on the line of the statement
    have hfirst : ∀ r, (firstLine (b ++ c :: r)).all isBlank = false := by
      intro r
      rw [Bool.eq_false_iff]
      intro hall
      have hin : c ∈ firstLine (b ++ c :: r) := by
        rw [firstLine, List.takeWhile_append_of_pos, List.takeWhile_cons_of_pos (by simpa using hline)]
        · simp
        · intro d hd
          rw [decide_eq_true_eq]
          rintro rfl
          rw [hlast.1] at hd
          exact hnone hd
      rw [List.all_eq_true.1 hall c hin] at hc
      cases hc
    simp only [hfirst, Bool.and_false, Bool.false_eq_true, if_false, List.dropWhile_append]
    split
    · simp [hspace]
    · simp
  · -- the line of the statement ends before the byte
    have hfirst : ∀ r, firstLine (b ++ r) = firstLine b := by
      intro r
      rw [hmore, List.append_assoc, List.cons_append, firstLine_append hnone (.inr ⟨_, rfl⟩),
        firstLine_append hnone (.inr ⟨_, rfl⟩)]
    have hlong : (firstLine b).length + 1 ≤ b.length := by
      have hlength := congrArg List.length hmore
      rw [List.length_append, List.length_cons] at hlength
      omega
    simp only [hfirst, List.drop_append_of_le_length hlong, List.dropWhile_append]
    split
    · simp
    · split
      · simp [hspace]
      · simp

/-- Blanks at the beginning end before a byte that is not blank. -/
theorem append_of_blank {b y : Text} (hc : isBlank c = false) (hv : ∀ d ∈ v, isBlank d = true)
    (h : b ++ c :: y = v ++ back) : ∃ r, b = v ++ r ∧ back = r ++ c :: y := by
  rcases List.append_eq_append_iff.1 h with ⟨w, rfl, hw⟩ | ⟨w, rfl, rfl⟩
  · cases w with
    | nil => exact ⟨[], by simp, by simpa using hw.symm⟩
    | cons d w =>
      simp only [List.cons_append, List.cons.injEq] at hw
      have hblank := hv c (by simp [hw.1])
      rw [hc] at hblank
      cases hblank
  · exact ⟨w, rfl, rfl⟩

/-- **A cut before a byte that is not blank** leaves a text that comes to rest there. -/
theorem eraseStatement_before (hstart : s.start ≤ s.stop) (hstop : s.stop ≤ x.length) (hc : isBlank c = false)
    (hx : Rests x) (hbefore : Rests (x.take s.start)) (hbehind : Rests (x.take s.stop)) :
    ∃ a, Rests a ∧ (∀ r, eraseStatement (x ++ c :: r) s = a ++ c :: r) ∧
      ∀ i ≤ s.start, (∀ d, byteBefore x i = some d → isBlank d = false) → i ≤ a.length ∧ a.take i = x.take i := by
  obtain ⟨front, u, v, back, hfront, hback, heq, hu, hv, hline⟩ := eraseStatement_pieces (x ++ [c]) s
  rw [List.take_append_of_le_length (Nat.le_trans hstart hstop)] at hfront
  rw [List.drop_append_of_le_length hstop] at hback
  obtain ⟨b, hb, rfl⟩ := append_of_blank hc hv hback
  have hleft : Rests front := by
    rw [hfront] at hbefore
    rcases hline with rfl | hline
    · rwa [List.append_nil] at hbefore
    · exact hbefore.lineStart hu hline
  have hright : Rests b := by
    have hrest : Rests (x.drop s.stop) := by
      apply hbehind.of_append
      rwa [List.take_append_drop]
    rw [hb] at hrest
    exact (rests_of_blank hv).of_append hrest
  refine ⟨front ++ b, hleft.append hright, ?_, ?_⟩
  · intro r
    rw [eraseStatement_append hstop hstart hc, heq]
    simp
  · intro i hi solid
    have htake : x.take i = (front ++ u).take i := by
      rw [← hfront, List.take_take, Nat.min_eq_left hi]
    have hlength : i ≤ (front ++ u).length := by
      rw [← hfront, List.length_take]
      omega
    -- the byte before the place is not blank, so the place is not among the blanks that go with the statement
    have hkept : i ≤ front.length := le_length_of_solid htake hlength (fun c hc => (hu c hc).1) solid
    rw [List.length_append, List.take_append_of_le_length hkept, htake, List.take_append_of_le_length hkept]
    exact ⟨by omega, rfl⟩

end Flatsheet.Text
