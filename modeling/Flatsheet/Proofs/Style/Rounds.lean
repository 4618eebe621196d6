import Flatsheet.Text.Basic
import Mathlib.Algebra.GroupWithZero.Nat
import Mathlib.Logic.Function.Iterate

/-!
# `Proofs.Style.Rounds` — rounds of replacing until nothing is found

A text is searched, all that is found is replaced at once, and this is done again until nothing is found. `Runs`
is that loop with no bound on the number of rounds. It ends if there is a quantity that gets less in each round
(`runs_of_progress`). If that gets less by the number of things replaced, it bounds what is replaced altogether
(`Runs.le`).

A loop that ends is the same as one that is broken off, after enough rounds (`Runs.roundsUpTo_eq`). One that does not
end goes on as long as it may (`roundsUpTo_of_found`).
-/

namespace Flatsheet.Style

variable {α : Type} {find : Text → List α} {round : Text → Text} {μ : Text → Nat} {t t' : Text}
  {found : List α} {n rounds : Nat}

/-- **The loop ends** after `n` rounds with the text `t'`. What was found is recorded by rounds, and last first in
each round. -/
inductive Runs (find : Text → List α) (round : Text → Text) : Nat → Text → List α → Text → Prop
  | done {t : Text} (settled : find t = []) : Runs find round 0 t [] t
  | again {n : Nat} {t t' : Text} {found : List α} (more : find t ≠ [])
      (rest : Runs find round n (round t) found t') :
      Runs find round (n + 1) t ((find t).reverse ++ found) t'

theorem Runs.settled (h : Runs find round n t found t') : find t' = [] := by
  induction h with
  | done settled => exact settled
  | again _ _ ih => exact ih

/-- The text after a round that changes nothing, and after the rounds before it. -/
theorem Runs.text_eq (h : Runs find round n t found t') : t' = round^[n] t := by
  induction h with
  | done => rfl
  | again _ _ ih => exact ih

/-- A loop in which something is found after every number of rounds does not end. -/
theorem not_runs (h : ∀ n, find (round^[n] t) ≠ []) : ¬ Runs find round n t found t' := by
  intro hruns
  have hsettled := hruns.settled
  rw [hruns.text_eq] at hsettled
  exact h n hsettled

/-- **What a round takes from a quantity or adds to it, all rounds together do.** -/
theorem Runs.le (h : Runs find round n t found t') (more : α → Nat)
    (hround : ∀ t, μ (round t) + (find t).length ≤ μ t + ((find t).map more).sum) :
    μ t' + found.length ≤ μ t + (found.map more).sum := by
  induction h with
  | done => exact Nat.le_refl _
  | @again n t t' found _ _ ih =>
    have hfirst := hround t
    rw [List.length_append, List.length_reverse, List.map_append, List.sum_append, List.map_reverse, List.sum_reverse]
    omega

/-- **A loop with progress in each of its rounds ends.** -/
theorem runs_of_progress (find : Text → List α) (round : Text → Text)
    (progress : ∀ k, find (round^[k] t) ≠ [] → μ (round^[k + 1] t) < μ (round^[k] t)) :
    ∃ n found t', Runs find round n t found t' ∧ n + μ t' ≤ μ t := by
  -- the quantity of the first text bounds the number of rounds
  induction hμ : μ t using Nat.strongRecOn generalizing t with
  | ind m ih =>
    subst hμ
    by_cases hsettled : find t = []
    · exact ⟨0, [], t, .done hsettled, Nat.le_of_eq (Nat.zero_add _)⟩
    · have hfirst : μ (round t) < μ t := progress 0 hsettled
      obtain ⟨n, found, t', hruns, hle⟩ := ih (μ (round t)) hfirst (fun k hk => progress (k + 1) hk) rfl
      exact ⟨n + 1, (find t).reverse ++ found, t', .again hsettled hruns, by omega⟩

/-! ## A bound on the rounds -/

/-- The loop, broken off after so many rounds. -/
def roundsUpTo (find : Text → List α) (round : Text → Text) : Nat → Text → Text × List α
  | 0, t => (t, [])
  | rounds + 1, t =>
    if (find t).isEmpty then (t, [])
    else ((roundsUpTo find round rounds (round t)).1, (find t).reverse ++ (roundsUpTo find round rounds (round t)).2)

/-- **As many rounds as the loop takes**, or more, give what the loop gives. -/
theorem Runs.roundsUpTo_eq (h : Runs find round n t found t') (hn : n ≤ rounds) :
    roundsUpTo find round rounds t = (t', found) := by
  induction h generalizing rounds with
  | @done t settled =>
    cases rounds with
    | zero => rfl
    | succ rounds => simp [roundsUpTo, settled]
  | @again n t t' found more _ ih =>
    cases rounds with
    | zero => exact absurd hn (Nat.not_succ_le_zero n)
    | succ rounds => simp [roundsUpTo, more, ih (Nat.le_of_succ_le_succ hn)]

/-- **As long as something is found the loop goes on**, and records it in each round. -/
theorem roundsUpTo_of_found (h : ∀ k < rounds, find (round^[k] t) ≠ []) :
    (roundsUpTo find round rounds t).1 = round^[rounds] t ∧
      rounds ≤ (roundsUpTo find round rounds t).2.length := by
  induction rounds generalizing t with
  | zero => exact ⟨rfl, Nat.le_refl _⟩
  | succ rounds ih =>
    have hfound : find t ≠ [] := h 0 (Nat.succ_pos rounds)
    obtain ⟨htext, hrecorded⟩ := ih (t := round t) fun k hk => h (k + 1) (Nat.succ_lt_succ hk)
    have hlength := List.length_pos_iff.2 hfound
    rw [roundsUpTo, if_neg (by simpa using hfound)]
    refine ⟨htext, ?_⟩
    rw [List.length_append, List.length_reverse]
    omega

end Flatsheet.Style
