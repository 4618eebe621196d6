import Flatsheet.Repair.Loop
import Mathlib.Data.List.DropRight

/-!
# `Proofs.Repair.LogWindow` — no line of a log is new twice

A log that only grows is looked at twice, each time through a window that shows its last lines. The lines that
`newLines` reports are the fewest that make both looks agree. How many lines have really been added makes them
agree too (`overlaps_appended`), so never more are reported than were added, and never a line that was there
before (`Fresh.suffix`). Fewer are reported only where the log repeats itself: the looks then agree at a
distance that is not the real one (`Fresh.repeats`).
-/

namespace Flatsheet.Repair

open Text

variable {σ : Type} {window n : Nat} {log appended reported : List Text}

/-! ## Windows -/

theorem length_rtake (n : Nat) (log : List Text) : (log.rtake n).length = min n log.length := by
  rw [List.rtake, List.length_drop]
  omega

theorem length_rtake_append (window : Nat) (log appended : List Text) :
    ((log ++ appended).rtake window).length = min window (log.length + appended.length) := by
  rw [length_rtake, List.length_append]

theorem rtake_suffix (n : Nat) (log : List Text) : log.rtake n <:+ log := List.drop_suffix _ log

/-- The end of what a window shows is the end of the log. -/
theorem rtake_rtake {m : Nat} (h : m ≤ n) (log : List Text) : (log.rtake n).rtake m = log.rtake m := by
  have hlength : (log.rtake n).length = min n log.length := length_rtake n log
  rw [List.rtake, hlength, List.rtake, List.rtake, List.drop_drop]
  congr 1
  omega

/-- Before the lines that were added, a window shows the end of the log as it was. -/
theorem take_rtake_append (h : appended.length ≤ window) :
    ((log ++ appended).rtake window).take (((log ++ appended).rtake window).length - appended.length) =
      log.rtake (window - appended.length) := by
  have hlength := length_rtake_append window log appended
  have hcut : (log ++ appended).length - window ≤ log.length := by
    rw [List.length_append]
    omega
  have hkept : min window (log.length + appended.length) - appended.length =
      (log.drop ((log ++ appended).length - window)).length := by
    rw [List.length_drop, List.length_append]
    omega
  rw [hlength, List.rtake, List.drop_append_of_le_length hcut, hkept, List.take_left, List.rtake,
    List.length_append]
  congr 1
  omega

/-! ## The lines that are reported -/

/-- **The number of lines added is one at which both looks agree**, as far as the window shows them. -/
theorem overlaps_appended (window : Nat) (log appended : List Text) :
    leastAppended window (log.rtake window) ((log ++ appended).rtake window) ≤ min appended.length window ∧
      overlaps (log.rtake window) ((log ++ appended).rtake window)
        (((log ++ appended).rtake window).length - min appended.length window) = true := by
  have hold : (log.rtake window).length = min window log.length := length_rtake window log
  have hnew := length_rtake_append window log appended
  constructor
  · rw [leastAppended, hold, hnew]
    split <;> omega
  · rw [overlaps, Bool.and_eq_true, decide_eq_true_eq, decide_eq_true_eq, hold]
    by_cases hfits : appended.length ≤ window
    · -- the end of the old log is still in the window
      rw [Nat.min_eq_left hfits]
      refine ⟨by omega, ?_⟩
      have hlast : log.rtake (window - appended.length) =
          (log.rtake window).rtake (((log ++ appended).rtake window).length - appended.length) := by
        rw [rtake_rtake (by omega), hnew, List.rtake, List.rtake]
        congr 1
        omega
      rw [take_rtake_append hfits, hlast, List.rtake, hold]
    · -- all that the window shows has been added
      have hnone : ((log ++ appended).rtake window).length - min appended.length window = 0 := by omega
      rw [hnone]
      refine ⟨Nat.zero_le _, ?_⟩
      rw [List.take_zero, Nat.sub_zero, ← hold, List.drop_length]

/-- What is reported are the last lines of the window, as many as make the looks agree and no more. -/
theorem newLines_spec (window : Nat) (old new : List Text) {m : Nat} (hm : m ≤ new.length)
    (hleast : leastAppended window old new ≤ m) (hoverlaps : overlaps old new (new.length - m) = true) :
    ∃ k ≤ m, newLines window old new = new.rtake k ∧ leastAppended window old new ≤ k ∧
      overlaps old new (new.length - k) = true := by
  let agrees : Nat → Bool := fun k => leastAppended window old new ≤ k && overlaps old new (new.length - k)
  have hagrees : agrees m = true := by
    rw [Bool.and_eq_true, decide_eq_true_eq]
    exact ⟨hleast, hoverlaps⟩
  have hrange : newLines window old new =
      new.drop (new.length - ((List.range (new.length + 1)).find? agrees).getD new.length) := rfl
  cases hfound : (List.range (new.length + 1)).find? agrees with
  | none =>
    have hnone := List.find?_range_eq_none.1 hfound m (by omega)
    rw [hagrees] at hnone
    cases hnone
  | some k =>
    obtain ⟨hk, -, hfirst⟩ := List.find?_range_eq_some.1 hfound
    have hle : k ≤ m := by
      apply Nat.le_of_not_lt
      intro hlt
      have hnot := hfirst m hlt
      rw [hagrees] at hnot
      cases hnot
    rw [Bool.and_eq_true, decide_eq_true_eq] at hk
    refine ⟨k, hle, ?_, hk.1, hk.2⟩
    rw [hrange, hfound]
    rfl

/-- **What may be reported of a log after lines have been added to it**, with a window for each look: only lines
that have been added; all of them, if the window has always shown the whole log; and fewer than the window shows
only if the log repeats itself. -/
structure Fresh (window : Nat) (log appended reported : List Text) : Prop where
  suffix : reported <:+ appended
  complete : log.length < window → log.length + appended.length ≤ window → reported = appended
  /-- What the window shows before the lines reported is also what it showed last at the first look. -/
  repeats : reported.length < min appended.length window →
    let shown := (log ++ appended).rtake window
    shown.length - reported.length ≤ (log.rtake window).length ∧
      shown.take (shown.length - reported.length) =
        (log.rtake window).rtake (shown.length - reported.length)

/-- **The lines reported as new are new.** -/
theorem fresh_newLines (window : Nat) (log appended : List Text) : Fresh window log appended
    (newLines window (log.rtake window) ((log ++ appended).rtake window)) := by
  have hold : (log.rtake window).length = min window log.length := length_rtake window log
  have hnew := length_rtake_append window log appended
  obtain ⟨hleast, hoverlaps⟩ := overlaps_appended window log appended
  obtain ⟨k, hk, hreported, hatLeast, hagree⟩ :=
    newLines_spec window _ _ (by omega) hleast hoverlaps
  have hlength : (newLines window (log.rtake window) ((log ++ appended).rtake window)).length = k := by
    rw [hreported, length_rtake]
    omega
  have hsuffix : newLines window (log.rtake window) ((log ++ appended).rtake window) <:+ appended := by
    have hlast : newLines window (log.rtake window) ((log ++ appended).rtake window) <:+ log ++ appended := by
      rw [hreported]
      exact (rtake_suffix k _).trans (rtake_suffix window _)
    exact List.suffix_of_suffix_length_le hlast (List.suffix_append log appended) (by omega)
  refine ⟨hsuffix, ?_, ?_⟩
  · intro hshort hfits
    apply hsuffix.eq_of_length
    rw [leastAppended, hold, hnew, if_pos (by omega)] at hatLeast
    omega
  · intro _
    rw [overlaps, Bool.and_eq_true, decide_eq_true_eq, decide_eq_true_eq] at hagree
    rw [hlength]
    exact hagree

/-! ## A verification that looks at the log -/

variable {env : Surroundings σ} {o : VerifyOptions} {r r' : Run σ} {w w' : σ}

/-- Submitting takes down the end of the log, whether or not the candidates can be written. -/
theorem baseline_submit {ls : List Text}
    (h : env.tail o.tailLines (removeOutputs env r.files r.world) = (.lines ls, w)) :
    (submit env o r).2.baseline = ls := by
  have htaken : takeBaseline env o "submit".toList { r with world := removeOutputs env r.files r.world } =
      (.ok (), { r with world := w, baseline := ls }) := by
    rw [takeBaseline, h]
  simp only [submit, htaken]
  split <;> rfl

/-- **No old line of the log is taken for a new one.** The baseline is that of the last submission, when the log
had the lines `log`; since then the lines `appended` have been added. -/
theorem readNewLines_fresh {log appended : List Text}
    (before : env.tail o.tailLines (removeOutputs env r.files r.world) = (.lines (log.rtake o.tailLines), w))
    (kept : r'.baseline = (submit env o r).2.baseline)
    (after : env.tail o.tailLines r'.world = (.lines ((log ++ appended).rtake o.tailLines), w')) :
    ∃ reported, readNewLines env o r' = (.ok reported, { r' with world := w' }) ∧
      Fresh o.tailLines log appended reported := by
  refine ⟨_, ?_, fresh_newLines o.tailLines log appended⟩
  rw [readNewLines, after, kept, baseline_submit before]

/-- Surroundings in which the log is all that there is. -/
def Surroundings.logging : Surroundings (FileTree × List Text) where
  tree := Prod.fst
  setTree t w := (t, w.2)
  tail count w := (.lines (w.2.rtake count), w)
  now _ := 0
  sleep _ w := w
  isCancelled w := (false, w)
  revert _ w := (.done, w)

/-- Through a window of three lines a log that tells of one error twice, and then again before it is done, shows
no more than the last line as new. -/
theorem fresh_of_repeated_error :
    let error := "Error: x".toList
    let done := "Finished 'sass'".toList
    let o : VerifyOptions := { watchDirectory := "w".toList, tailLines := 3 }
    let r : Run (FileTree × List Text) := { world := ({}, [error, error]) }
    let r' : Run (FileTree × List Text) :=
      { world := ({}, [error, error, error, done]), baseline := [error, error] }
    ∃ reported, readNewLines Surroundings.logging o r' = (.ok reported, r') ∧
      Fresh 3 [error, error] [error, done] reported ∧ (submit Surroundings.logging o r).2.baseline = r'.baseline ∧
      reported = [done] := by
  intro error done o r r'
  have hbefore : Surroundings.logging.tail o.tailLines (removeOutputs Surroundings.logging r.files r.world) =
      (.lines (List.rtake [error, error] o.tailLines), r.world) := rfl
  have hafter : Surroundings.logging.tail o.tailLines r'.world =
      (.lines (List.rtake ([error, error] ++ [error, done]) o.tailLines), r'.world) := rfl
  have hkept : r'.baseline = (submit Surroundings.logging o r).2.baseline := rfl
  obtain ⟨reported, hread, hfresh⟩ := readNewLines_fresh hbefore hkept hafter
  refine ⟨reported, hread, hfresh, rfl, ?_⟩
  have hdone : (readNewLines Surroundings.logging o r').1 = .ok [done] := by decide
  rw [hread] at hdone
  exact Except.ok.inj hdone

end Flatsheet.Repair
