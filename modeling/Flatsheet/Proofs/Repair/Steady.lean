import Flatsheet.Proofs.Repair.Dealings
import Flatsheet.Repair.Loop

/-!
# `Proofs.Repair.Steady` — a log that holds out

Reading the log can break down, and so can making sense of what it says. A verification then gives up in
the middle of an attempt. In surroundings that are `Steady` neither happens, and every attempt comes to an
end of its own (`Steady.bothTiers_unbroken`).

What is parsed are always the lines that are new since a baseline. The baseline is taken from the log as
well, or empty (`Steady.submit_unbroken`), so nothing needs to be known about other lines.
-/

namespace Flatsheet.Repair

open Text Log

variable {σ : Type} {env : Surroundings σ} {o : VerifyOptions} {r : Run σ}

/-- The lines can be all that is known of the end of the log. -/
def Surroundings.Shows (env : Surroundings σ) (count : Nat) (ls : List Text) : Prop :=
  ls = [] ∨ ∃ w w', env.tail count w = (.lines ls, w')

/-- **Neither the log nor its parser ever breaks down.** -/
structure Steady (env : Surroundings σ) (o : VerifyOptions) : Prop where
  heard : ∀ m w w', env.tail o.tailLines w ≠ (.broken m, w')
  understood : ∀ old new, env.Shows o.tailLines old → env.Shows o.tailLines new →
    ∃ errors, CompileError.parse (newLines o.tailLines old new) = .ok errors

namespace Steady

theorem readNewLines_understood (h : Steady env o) (hshown : env.Shows o.tailLines r.baseline) :
    ∃ ls errors, (readNewLines env o r).1 = .ok ls ∧ CompileError.parse ls = .ok errors ∧
      (readNewLines env o r).2.baseline = r.baseline := by
  rw [readNewLines]
  split
  · next ls world htail =>
    obtain ⟨errors, herrors⟩ := h.understood r.baseline ls hshown (.inr ⟨_, _, htail⟩)
    exact ⟨_, errors, rfl, herrors, rfl⟩
  · exact ⟨[], [], rfl, rfl, rfl⟩
  · next m world htail => exact absurd htail (h.heard m _ _)

theorem look_unbroken (h : Steady env o) (hshown : env.Shows o.tailLines r.baseline) :
    (∀ m, (look env o r).1 ≠ some (.broken m)) ∧
      ((look env o r).1 = none → (look env o r).2.baseline = r.baseline) := by
  obtain ⟨ls, errors, hread, hparse, hbaseline⟩ :=
    h.readNewLines_understood (r := { r with world := env.sleep o.interval r.world }) hshown
  simp only [look]
  split
  · exact ⟨nofun, nofun⟩
  · cases hnew : readNewLines env o { r with world := env.sleep o.interval r.world } with
    | mk new r₁ =>
      rw [hnew] at hread hbaseline
      dsimp only at hread hbaseline
      subst hread
      dsimp only
      split
      · next fault hjudge =>
        rw [judge, hparse] at hjudge
        cases hjudge
      · exact ⟨nofun, nofun⟩
      · next status hne hjudge =>
        -- the verdict on lines that can be parsed is on errors, on success, or there is none
        refine ⟨fun m hm => ?_, fun _ => hbaseline⟩
        rw [judge, hparse] at hjudge
        simp only [Except.map, Except.ok.injEq] at hjudge
        rw [← hjudge] at hm
        split at hm
        · cases hm
        · split at hm <;> cases hm

theorem waitFor_unbroken (h : Steady env o) (deadline : Int) (looks : Nat)
    (hshown : env.Shows o.tailLines r.baseline) (m : Text) :
    (waitFor env o deadline looks r).1 ≠ .broken m := by
  induction looks generalizing r with
  | zero => nofun
  | succ looks ih =>
    rw [waitFor]
    split
    · nofun
    · split
      · nofun
      · next world hasked =>
        obtain ⟨hstatus, hbaseline⟩ := h.look_unbroken (r := { r with world }) hshown
        split
        · next status r₁ hlook =>
          rw [hlook] at hstatus
          exact fun hm => hstatus m (congrArg some hm)
        · next r₁ hlook =>
          rw [hlook] at hbaseline
          exact ih (by rw [hbaseline rfl]; exact hshown)

/-- What is taken down as the baseline has been seen in the log. -/
theorem submit_unbroken (h : Steady env o) (r : Run σ) :
    (∀ m, (submit env o r).1 ≠ .broken m) ∧
      env.Shows o.tailLines (submit env o r).2.baseline := by
  have htaken : ∀ (stage : Text) (r : Run σ), (takeBaseline env o stage r).1 = .ok () ∧
      env.Shows o.tailLines (takeBaseline env o stage r).2.baseline := by
    intro stage r
    rw [takeBaseline]
    split
    · next ls world htail => exact ⟨rfl, .inr ⟨_, _, htail⟩⟩
    · exact ⟨rfl, .inl rfl⟩
    · next m world htail => exact absurd htail (h.heard m _ _)
  obtain ⟨hok, hshown⟩ :=
    htaken "submit".toList { r with world := removeOutputs env r.files r.world }
  simp only [submit]
  split
  · next m r₁ hbase =>
    rw [hbase] at hok
    cases hok
  · next r₁ hbase =>
    rw [hbase] at hshown
    split <;> exact ⟨nofun, hshown⟩

/-- **An attempt does not break down.** -/
theorem attempt_unbroken (h : Steady env o) (tier : Tier) (last : Bool) (r : Run σ) (m : Text) :
    (attempt env o tier last r).1 ≠ .error m := by
  have hafter : ∀ (a : Attempt) (r : Run σ), (repairAfter a last r).1 ≠ .error m := by
    intro a r
    rw [repairAfter]
    split <;> nofun
  -- it could break down while submitting or while polling
  have hcompile : ∀ (a : Attempt) (r : Run σ), (compile env o a last r).1 ≠ .error m := by
    intro a r
    obtain ⟨hbroken, hshown⟩ := h.submit_unbroken (r.enter .submitted)
    rw [compile]
    split
    · next m r₁ hsubmit =>
      rw [hsubmit] at hbroken
      exact absurd rfl (hbroken m)
    · nofun
    · next r₁ hsubmit =>
      rw [hsubmit] at hshown
      split
      · next m r₂ hpoll =>
        have hwait := h.waitFor_unbroken (r := { r₁.enter .polling with
            result := { (r₁.enter .polling).result with
              pollCycles := (r₁.enter .polling).result.pollCycles + 1 } })
          (env.now r₁.world + o.compileWait) (env.patience o.interval o.compileWait) hshown m
        exact absurd (congrArg Prod.fst hpoll) hwait
      · nofun
      · nofun
      · exact hafter _ _
      · exact hafter _ _
  simp only [attempt]
  split
  · nofun
  · exact hcompile _ _

/-- **All attempts together do not break down.** -/
theorem bothTiers_unbroken (h : Steady env o) (r : Run σ) (m : Text) :
    (bothTiers env o r).1 ≠ .error m := by
  have hattempts : ∀ (tier : Tier) (none : AttemptOutcome) (left : Nat) (r : Run σ),
      (attempts env o tier none left r).1 ≠ .error m := by
    intro tier none left
    induction left generalizing none with
    | zero => nofun
    | succ left ih =>
      intro r
      have hattempt := h.attempt_unbroken tier (left = 0) r m
      rw [attempts]
      split
      · exact ih _ _
      · next ended r₁ hne hend =>
        rw [hend] at hattempt
        exact hattempt
  have hstandard := hattempts .standard .escalate o.maxRetries.toNat r
  rw [bothTiers]
  split
  · exact hattempts _ _ _ _
  · next ended r₁ hne hend =>
    rw [hend] at hstandard
    exact hstandard

end Steady

/-- A log that is always empty holds out. -/
theorem steady_sleeping (meanwhile : FileTree → FileTree) (o : VerifyOptions) :
    Steady (Surroundings.sleeping meanwhile) o := by
  have hempty : ∀ ls, (Surroundings.sleeping meanwhile).Shows o.tailLines ls → ls = [] := by
    rintro ls (rfl | ⟨w, w', htail⟩)
    · rfl
    · cases htail
      rfl
  refine ⟨nofun, fun _ new _ hnew => ?_⟩
  rw [hempty new hnew, newLines, List.drop_nil]
  exact ⟨[], rfl⟩

end Flatsheet.Repair
