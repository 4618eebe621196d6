import Flatsheet.Repair.Loop

/-!
# `Proofs.Repair.Baseline` — the baseline that is left behind does not count

A verification keeps the end of the log as its baseline, and what it keeps last is still there when the
next one begins. It makes no difference: wherever the log is compared with the baseline, the baseline was
taken down before by the same verification, also when the log was unavailable or broke down.

* **Alike.** Two runs are `Alike` if they agree in everything but the baseline. Phases that do not look at
  the baseline take a run with another baseline to the same run with that other baseline (`…_rebase`).
* **Forgotten.** The phases that look at it, submitting with waiting for the compiler (`compile_rebase`) and
  waiting for the watcher (`letWatcherNotice_rebase`), take it down first, so that they end in the very same
  run whatever it was.
* **One verification after the other** (`verifyInTurn_visible`) is the same as each of them on its own.
-/

namespace Flatsheet.Repair

open Text Log

variable {σ : Type} {r r' : Run σ}

/-! ## Runs with another baseline -/

/-- The run with another baseline. -/
def Run.rebase (r : Run σ) (baseline : List Text) : Run σ := { r with baseline }

@[simp] theorem Run.rebase_world (r : Run σ) (baseline : List Text) :
    (r.rebase baseline).world = r.world := rfl

@[simp] theorem Run.rebase_files (r : Run σ) (baseline : List Text) :
    (r.rebase baseline).files = r.files := rfl

/-- The runs agree in everything but the baseline. -/
def Run.Alike (r r' : Run σ) : Prop := ∃ baseline, r' = r.rebase baseline

namespace Run.Alike

theorem refl (r : Run σ) : r.Alike r := ⟨r.baseline, rfl⟩

theorem rebase (r : Run σ) (baseline : List Text) : r.Alike (r.rebase baseline) := ⟨baseline, rfl⟩

end Run.Alike

variable (env : Surroundings σ) (o : VerifyOptions)

/-! ## The phases that take the baseline -/

/-- What is taken down as the baseline does not depend on the former one, also when there is no log or it
breaks down. -/
theorem takeBaseline_rebase (stage : Text) (r : Run σ) (baseline : List Text) :
    takeBaseline env o stage (r.rebase baseline) = takeBaseline env o stage r := rfl

theorem submit_rebase (r : Run σ) (baseline : List Text) :
    submit env o (r.rebase baseline) = submit env o r := by
  -- the former outputs are removed before the baseline is taken
  have htaken := takeBaseline_rebase env o "submit".toList
    { r with world := removeOutputs env r.files r.world } baseline
  simp only [submit, Run.rebase_files, Run.rebase_world]
  rw [← htaken]
  rfl

/-- **Compiling forgets the former baseline**: the new one is taken down before the log is read. -/
theorem compile_rebase (a : Attempt) (last : Bool) (r : Run σ) (baseline : List Text) :
    compile env o a last (r.rebase baseline) = compile env o a last r := by
  have hsubmitted : submit env o ((r.rebase baseline).enter .submitted) =
      submit env o (r.enter .submitted) := submit_rebase env o (r.enter .submitted) baseline
  rw [compile, hsubmitted, compile]

/-- **Waiting for the watcher forgets the former baseline.** -/
theorem letWatcherNotice_rebase (r : Run σ) (baseline : List Text) :
    letWatcherNotice env o (r.rebase baseline) = letWatcherNotice env o r := rfl

/-! ## The phases that do not look at it -/

theorem repairBefore_rebase (a : Attempt) (r : Run σ) (baseline : List Text) :
    repairBefore a (r.rebase baseline) = ((repairBefore a r).1, (repairBefore a r).2.rebase baseline) := by
  simp only [repairBefore]
  cases a.tier <;> rfl

theorem writeBack_rebase (fs : List Candidate) (r : Run σ) (baseline : List Text) :
    writeBack env fs (r.rebase baseline) =
      ((writeBack env fs r).1, (writeBack env fs r).2.rebase baseline) := by
  induction fs generalizing r with
  | nil => rfl
  | cons f fs ih =>
    simp only [writeBack, Run.rebase_world]
    split
    · exact ih r
    · split
      · next world _ =>
        exact ih ({ r with world }.note .info "write_back".toList ("updated ".toList ++ f.target))
      · rfl

theorem conclude_rebase (ended : AttemptEnd) (r : Run σ) (baseline : List Text) :
    conclude env ended (r.rebase baseline) = (conclude env ended r).rebase baseline := by
  match ended with
  | .ok .success =>
    simp only [conclude, Run.rebase_files, writeBack_rebase]
    cases writeBack env r.files r with
    | mk written r' => cases written <;> rfl
  | .error _ | .ok .cancelled | .ok .retry | .ok .escalate | .ok .exhausted => rfl

theorem discardAll_rebase (paths : List Text) (r : Run σ) (baseline : List Text) :
    discardAll env paths (r.rebase baseline) =
      ((discardAll env paths r).1, (discardAll env paths r).2.rebase baseline) := by
  induction paths generalizing r with
  | nil => rfl
  | cons p ps ih =>
    have hfirst : discard env p (r.rebase baseline) =
        ((discard env p r).1, (discard env p r).2.rebase baseline) := by
      simp only [discard, Run.rebase_world]
      split <;> rfl
    simp only [discardAll, hfirst, ih]

theorem revert_rebase (r : Run σ) (baseline : List Text) :
    revert env o (r.rebase baseline) = (revert env o r).rebase baseline := by
  simp only [revert, Run.rebase_world]
  split <;> rfl

/-! ## Attempts -/

/-- Both end in the same way, with runs that are alike. -/
def EndAlike (p p' : AttemptEnd × Run σ) : Prop := ∃ baseline, p' = (p.1, p.2.rebase baseline)

/-- **An attempt forgets the baseline, unless it is cancelled before the candidates are submitted**, and
then it does not look at it. -/
theorem attempt_alike (tier : Tier) (last : Bool) (h : r.Alike r') :
    EndAlike (attempt env o tier last r) (attempt env o tier last r') := by
  obtain ⟨baseline, rfl⟩ := h
  simp only [attempt, Run.rebase_world]
  split
  · exact ⟨baseline, rfl⟩
  · next world _ =>
    let a : Attempt := { cycle := r.result.attempts.length + 1, tier }
    have hrepaired : repairBefore a { r.rebase baseline with world } =
        ((repairBefore a { r with world }).1, (repairBefore a { r with world }).2.rebase baseline) :=
      repairBefore_rebase a { r with world } baseline
    -- the baseline of the second run is that of the first, which `compile` has just taken down
    refine ⟨(compile env o (repairBefore a { r with world }).1 last
      (repairBefore a { r with world }).2).2.baseline, ?_⟩
    show compile env o (repairBefore a { r.rebase baseline with world }).1 last
      (repairBefore a { r.rebase baseline with world }).2 = _
    rw [hrepaired]
    exact compile_rebase env o _ last _ baseline

/-- **A tier keeps runs alike**, by induction on the attempts that are left: both runs go on, or both
stop. -/
theorem attempts_alike (tier : Tier) (none : AttemptOutcome) (left : Nat) (h : r.Alike r') :
    EndAlike (attempts env o tier none left r) (attempts env o tier none left r') := by
  induction left generalizing none r r' with
  | zero =>
    obtain ⟨baseline, rfl⟩ := h
    exact ⟨baseline, rfl⟩
  | succ left ih =>
    obtain ⟨baseline, hattempt⟩ := attempt_alike env o tier (left = 0) h
    rw [attempts, attempts, hattempt]
    obtain ⟨ended, s⟩ := attempt env o tier (left = 0) r
    match ended with
    | .ok .retry => exact ih .retry (.rebase s baseline)
    | .error _ | .ok .escalate | .ok .success | .ok .exhausted | .ok .cancelled => exact ⟨baseline, rfl⟩

theorem bothTiers_alike (h : r.Alike r') : EndAlike (bothTiers env o r) (bothTiers env o r') := by
  obtain ⟨baseline, hstandard⟩ := attempts_alike env o .standard .escalate o.maxRetries.toNat h
  rw [bothTiers, bothTiers, hstandard]
  obtain ⟨ended, s⟩ := attempts env o .standard .escalate o.maxRetries.toNat r
  match ended with
  | .ok .escalate =>
    exact attempts_alike env o .aggressive .exhausted o.maxEscalations.toNat (.rebase s baseline)
  | .error _ | .ok .retry | .ok .success | .ok .exhausted | .ok .cancelled => exact ⟨baseline, rfl⟩

/-! ## Whole verifications -/

theorem pursue_alike (h : r.Alike r') : (pursue env o r).Alike (pursue env o r') := by
  obtain ⟨baseline, htiers⟩ := bothTiers_alike env o h
  simp only [pursue, htiers]
  exact ⟨baseline, conclude_rebase env _ _ baseline⟩

/-- **Cleaning up keeps runs alike.** Without candidates nobody waits for the watcher, and the baseline is
neither looked at nor taken. -/
theorem cleanUp_alike (h : r.Alike r') : (cleanUp env o r).Alike (cleanUp env o r') := by
  obtain ⟨baseline, rfl⟩ := h
  have hentered : (r.rebase baseline).enter .cleaningUp = (r.enter .cleaningUp).rebase baseline := rfl
  simp only [cleanUp, hentered, Run.rebase_files, discardAll_rebase]
  split
  · exact ⟨baseline, by rw [revert_rebase]; rfl⟩
  · rw [letWatcherNotice_rebase]
    exact .refl _

theorem verify_alike (targets : List Text) (baseline baseline' : List Text) (world : σ) :
    (verify env o targets baseline world).Alike (verify env o targets baseline' world) := by
  simp only [verify]
  split
  · exact ⟨baseline', rfl⟩
  · next files _ =>
    have hstaged : Run.Alike { world, baseline, files } { world, baseline := baseline', files } :=
      ⟨baseline', rfl⟩
    obtain ⟨left, hdone⟩ := cleanUp_alike env o (pursue_alike env o hstaged)
    exact ⟨left, by rw [hdone]; rfl⟩

/-- **A verification carries nothing over to the next one**: whatever baseline it finds, it comes to the
same result, says the same, and leaves the same world behind. -/
theorem verify_carries_nothing_over (targets : List Text) (baseline baseline' : List Text) (world : σ) :
    (verify env o targets baseline' world).result = (verify env o targets baseline world).result ∧
      (verify env o targets baseline' world).notes = (verify env o targets baseline world).notes ∧
      (verify env o targets baseline' world).world = (verify env o targets baseline world).world := by
  obtain ⟨left, hdone⟩ := verify_alike env o targets baseline baseline' world
  rw [hdone]
  exact ⟨rfl, rfl, rfl⟩

/-! ## One verification after the other -/

/-- What there is to see of a verification when it is over: its result, what it has said, and the world. -/
def Run.visible (r : Run σ) : Verification × List Note × σ := (r.result, r.notes, r.world)

theorem Run.Alike.visible (h : r.Alike r') : r'.visible = r.visible := by
  obtain ⟨baseline, rfl⟩ := h
  rfl

/-- Verifications in turn, each with the baseline and in the world that the one before left behind. -/
def verifyInTurn : List (List Text) → List Text → σ → List (Run σ)
  | [], _, _ => []
  | targets :: others, baseline, world =>
    let r := verify env o targets baseline world
    r :: verifyInTurn others r.baseline r.world

/-- Verifications in turn, each of which begins without a baseline. -/
def verifyAfresh : List (List Text) → σ → List (Run σ)
  | [], _ => []
  | targets :: others, world =>
    let r := verify env o targets [] world
    r :: verifyAfresh others r.world

/-- **One loop for all verifications is as good as a new one for each of them.** -/
theorem verifyInTurn_visible (jobs : List (List Text)) (baseline : List Text) (world : σ) :
    (verifyInTurn env o jobs baseline world).map Run.visible =
      (verifyAfresh env o jobs world).map Run.visible := by
  induction jobs generalizing baseline world with
  | nil => rfl
  | cons targets others ih =>
    have halike := verify_alike env o targets [] baseline world
    have hworld : (verify env o targets baseline world).world = (verify env o targets [] world).world := by
      obtain ⟨left, hdone⟩ := halike
      rw [hdone, Run.rebase_world]
    simp only [verifyInTurn, verifyAfresh, List.map_cons, halike.visible, hworld, ih]

end Flatsheet.Repair
