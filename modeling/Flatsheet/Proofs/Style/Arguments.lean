import Flatsheet.Proofs.Text.Lines
import Flatsheet.Style.Recipe
import Mathlib.Algebra.GroupWithZero.Nat

/-!
# `Proofs.Style.Arguments` — what an argument list is split into

Splitting a text at a separator loses nothing but the separators: put between the pieces again they give the text
(`joinWith_pieces`). So what a text has from its parts it has at least as much as its arguments have together
(`sum_splitTopLevel_le`), wherever the commas are that split it.

What the scanner goes over without a cut (`stateAfter?`) is the beginning of one piece (`pieces_append`).
-/

namespace Flatsheet.Style

open Text

variable {separator : Char} {s s' : SplitState} {j p r t : Text} {μ : Text → Nat}

theorem pieces_ne_nil (separator : Char) (s : SplitState) (t : Text) : pieces separator s t ≠ [] := by
  cases t with
  | nil => exact List.cons_ne_nil _ _
  | cons c r =>
    rw [pieces]
    split
    · exact List.cons_ne_nil _ _
    · split <;> exact List.cons_ne_nil _ _

theorem joinWith_cons (separator p : Text) {ps : List Text} (h : ps ≠ []) :
    joinWith separator (p :: ps) = p ++ separator ++ joinWith separator ps := by
  cases ps with
  | nil => exact absurd rfl h
  | cons q qs => rfl

theorem joinWith_cons_cons (separator p : Text) (c : Char) (ps : List Text) :
    joinWith separator ((c :: p) :: ps) = c :: joinWith separator (p :: ps) := by
  cases ps <;> rfl

/-- **Splitting loses nothing but the separators.** -/
theorem joinWith_pieces (separator : Char) (s : SplitState) (t : Text) :
    joinWith [separator] (pieces separator s t) = t := by
  induction t generalizing s with
  | nil => rfl
  | cons c r ih =>
    rw [pieces]
    split
    · next hcut =>
      simp only [SplitState.cutsAt, Bool.and_eq_true, decide_eq_true_eq] at hcut
      have hc : c = separator := hcut.1.1.1.1.2
      rw [joinWith_cons _ _ (pieces_ne_nil separator s r), ih, hc]
      rfl
    · have hrest := ih (s.next c)
      split
      · next hnil => exact absurd hnil (pieces_ne_nil _ _ _)
      · next p ps hpieces =>
        rw [hpieces] at hrest
        rw [joinWith_cons_cons, hrest]

/-! ## Uncut pieces -/

/-- The state of the argument scanner after a piece of text, unless the piece is cut. -/
def stateAfter? (separator : Char) (s : SplitState) : Text → Option SplitState
  | [] => some s
  | c :: r => if s.cutsAt separator c then none else stateAfter? separator (s.next c) r

theorem stateAfter?_append (p r : Text) :
    stateAfter? separator s (p ++ r) = (stateAfter? separator s p).bind (stateAfter? separator · r) := by
  induction p generalizing s with
  | nil => rfl
  | cons x p ih =>
    rw [List.cons_append, stateAfter?, stateAfter?, ih]
    split <;> rfl

/-- Between quotes nothing separates arguments, and only a backslash or the quote matters. -/
theorem stateAfter?_quoted {depth : Nat} {q : Char} (hslash : '\\' ∉ j) (hquote : q ∉ j) :
    stateAfter? separator ⟨depth, some q, false⟩ j = some ⟨depth, some q, false⟩ := by
  induction j with
  | nil => rfl
  | cons x j ih =>
    rw [List.mem_cons, not_or] at hslash hquote
    have hnext : SplitState.next ⟨depth, some q, false⟩ x = ⟨depth, some q, false⟩ := by
      simp [SplitState.next, Ne.symm hslash.1, Ne.symm hquote.1]
    rw [stateAfter?, hnext, ih hslash.2 hquote.2]
    rfl

/-- **A piece that nothing cuts is the beginning of the first piece.** -/
theorem pieces_append (h : stateAfter? separator s p = some s') {q : Text} {ps : List Text}
    (hr : pieces separator s' r = q :: ps) : pieces separator s (p ++ r) = (p ++ q) :: ps := by
  induction p generalizing s with
  | nil =>
    cases h
    exact hr
  | cons x p ih =>
    rw [stateAfter?] at h
    split at h
    · cases h
    · next hcut => rw [List.cons_append, pieces, if_neg hcut, ih h, List.cons_append]

/-! ## Quantities -/

/-- What a text has from its parts, it has from its middle. -/
theorem le_of_middle (gain : ∀ a b, μ a + μ b ≤ μ (a ++ b)) (a b t : Text) : μ t ≤ μ (a ++ (t ++ b)) := by
  have hfront := gain a (t ++ b)
  have hback := gain t b
  omega

theorem le_of_contained (gain : ∀ a b, μ a + μ b ≤ μ (a ++ b)) {a : Text} (h : a <:+: t) : μ a ≤ μ t := by
  obtain ⟨u, v, rfl⟩ := h
  rw [List.append_assoc]
  exact le_of_middle gain u v a

theorem trim_le (gain : ∀ a b, μ a + μ b ≤ μ (a ++ b)) (t : Text) : μ (trim t) ≤ μ t := by
  obtain ⟨front, hfront, -⟩ := eq_append_trimLeft t
  obtain ⟨back, hback, -⟩ := eq_trimRight_append (trimLeft t)
  have hmiddle := le_of_middle gain front back (trim t)
  rwa [trim, ← hback, ← hfront] at hmiddle

theorem sum_joinWith_le (gain : ∀ a b, μ a + μ b ≤ μ (a ++ b)) (separator : Text) (ps : List Text) :
    (ps.map μ).sum ≤ μ (joinWith separator ps) := by
  induction ps with
  | nil => exact Nat.zero_le _
  | cons p ps ih =>
    cases ps with
    | nil => simp [joinWith]
    | cons q qs =>
      have hfront := gain (p ++ separator) (joinWith separator (q :: qs))
      have hback := gain p separator
      rw [List.map_cons, List.sum_cons, joinWith_cons _ _ (List.cons_ne_nil q qs)]
      omega

/-- **The arguments together weigh no more than the list.** -/
theorem sum_splitTopLevel_le (gain : ∀ a b, μ a + μ b ≤ μ (a ++ b)) (separator : Char) (t : Text) :
    ((splitTopLevel separator t).map μ).sum ≤ μ t := by
  unfold splitTopLevel
  split
  · exact Nat.zero_le _
  · have hpieces := sum_joinWith_le gain [separator] (pieces separator .fresh t)
    rw [joinWith_pieces] at hpieces
    have htrimmed : ∀ ps : List Text, ((ps.map trim).map μ).sum ≤ (ps.map μ).sum := by
      intro ps
      induction ps with
      | nil => exact Nat.le_refl _
      | cons p ps ih =>
        have hp := trim_le gain p
        rw [List.map_cons, List.map_cons, List.map_cons, List.sum_cons, List.sum_cons]
        omega
    exact Nat.le_trans (htrimmed _) hpieces

end Flatsheet.Style
