import Flatsheet.Proofs.Repair.EditScript
import Flatsheet.Proofs.Repair.Phases

/-!
# `Proofs.Repair.Attempt` — what a single attempt does, and what all of them do

An attempt can leave off in seven ways, its `Exit`. The exit, together with the repairs made, determines
the end of the attempt, the record of it and the states that it passes through (`attempt_spec`). From there
on no proof looks into an attempt.

* **One attempt.** `Attempted` says how a verification differs before and after an attempt.
* **All attempts.** `Tried` is the course of the attempts of one tier (`attempts_spec`, by induction on the
  attempts that are left), and `TriedBoth` that of both tiers (`bothTiers_spec`).
* **Progress.** What holds of an attempt and can be composed holds of all attempts together
  (`bothTiers_progress`).
-/

namespace Flatsheet.Repair

open Text Log

variable {σ : Type} {env : Surroundings σ} {o : VerifyOptions}

/-! ## Exits -/

/-- How an attempt leaves off. -/
inductive Exit
  /-- It is cancelled before anything is done. -/
  | withdrawn
  /-- The log breaks down before the candidates are written. -/
  | unheard (message : Text)
  /-- A candidate cannot be written. -/
  | refused
  /-- The log breaks down, or cannot be made sense of, while the compiler works. -/
  | lost (message : Text)
  /-- It is cancelled while the compiler works. -/
  | stopped
  /-- The candidates compile. -/
  | accepted
  /-- The compiler reports errors, or does not answer in time. -/
  | rejected (timedOut : Bool) (errors : List CompileError)
deriving DecidableEq, Repr

/-- What an attempt of a tier begins with. -/
def Tier.opening : Tier → List VerifyState
  | standard => []
  | aggressive => [.aggressiveFixing]

/-- What a rejected attempt of a tier ends with. -/
def Tier.closing : Tier → List VerifyState
  | standard => [.fixing]
  | aggressive => []

namespace Exit

/-- The states of an attempt, given what it begins and what it may end with. -/
def stages (opening closing : List VerifyState) : Exit → List VerifyState
  | withdrawn => []
  | unheard _ => opening ++ [.submitted]
  | refused => opening ++ [.submitted]
  | lost _ => opening ++ [.submitted, .polling]
  | stopped => opening ++ [.submitted, .polling]
  | accepted => opening ++ [.submitted, .polling, .success]
  | rejected .. => opening ++ [.submitted, .polling, .errorsFound] ++ closing

/-- How often the attempt polls. -/
def polls : Exit → Nat
  | withdrawn | unheard _ | refused => 0
  | lost _ | stopped | accepted | rejected .. => 1

/-- The end of the attempt. -/
def ended (tier : Tier) (last : Bool) (fixes : List Alteration) : Exit → AttemptEnd
  | withdrawn | stopped => .ok .cancelled
  | unheard m | lost m => .error m
  | refused => .ok .exhausted
  | accepted => .ok .success
  | rejected .. => .ok <| match tier with
    | .standard => if fixes.isEmpty || last then .escalate else .retry
    | .aggressive => if last then .exhausted else .retry

/-- The attempt as it is put on record, with the errors and the end that go with the exit. -/
def attempt (a : Attempt) (outcome : AttemptOutcome) : Exit → Attempt
  | rejected timedOut errors => { a with timedOut, errors, outcome }
  | _ => { a with outcome }

theorem attempt_outcome (a : Attempt) (outcome : AttemptOutcome) (x : Exit) :
    (x.attempt a outcome).outcome = outcome := by
  cases x <;> rfl

/-- What is put on record: the attempt, unless it breaks down. -/
def recorded (a : Attempt) (last : Bool) (x : Exit) : List Attempt :=
  match x.ended a.tier last a.fixes with
  | .ok outcome => [x.attempt a outcome]
  | .error _ => []

end Exit

/-! ## One attempt -/

/-- The last thing done but for waiting is that all the candidates are written. -/
def Submitted (files : List Candidate) (ds : List Dealing) : Prop :=
  ∃ pre post, ds = pre ++ files.map Candidate.putIn ++ post ∧ ∀ d ∈ post, d.IsWaiting

/-- **An attempt**, as far as it is known (`a`), has left off by an exit after some more repairs. -/
structure Attempted (env : Surroundings σ) (a : Attempt) (last : Bool) (opening : List VerifyState)
    (r : Run σ) (x : Exit) (fixes : List Alteration) (result : AttemptEnd × Run σ) : Prop where
  ended : result.1 = x.ended a.tier last (a.fixes ++ fixes)
  attempts : result.2.result.attempts =
    r.result.attempts ++ x.recorded { a with fixes := a.fixes ++ fixes } last
  stages : result.2.result.trace.stages = r.result.trace.stages ++ x.stages opening a.tier.closing
  polls : result.2.result.pollCycles = r.result.pollCycles + x.polls
  repaired : Repaired r.files (result.2.files, fixes)
  report : result.2.result.report = r.result.report ++ fixes
  dealings : ∃ ds, Dealings env r.world ds result.2.world ∧ (∀ d ∈ ds, d.IsRoutine r.files) ∧
    (x = .accepted → Submitted result.2.files ds)

variable (env o)

/-- **The repairs after a failed attempt** are those of a rejection. -/
theorem repairAfter_spec (a : Attempt) (last : Bool) (r : Run σ)
    (fresh : a.tier = .standard → a.fixes = []) : ∃ fixes,
      (repairAfter a last r).1 =
        (Exit.rejected a.timedOut a.errors).ended a.tier last (a.fixes ++ fixes) ∧
      Repaired r.files ((repairAfter a last r).2.files, fixes) ∧
      (repairAfter a last r).2.world = r.world ∧
      (repairAfter a last r).2.result = { r.result with
        attempts := r.result.attempts ++
          (Exit.rejected a.timedOut a.errors).recorded { a with fixes := a.fixes ++ fixes } last
        report := r.result.report ++ fixes
        trace := ⟨r.result.trace.stages ++ a.tier.closing⟩ } := by
  obtain ⟨cycle, tier, timedOut, errors, first, outcome⟩ := a
  cases tier with
  | aggressive =>
    refine ⟨[], ?_, .refl r.files, rfl, ?_⟩
    · rw [List.append_nil]
      rfl
    · simp only [repairAfter, close, Run.record, Run.note, Tier.closing, List.append_nil]
      rfl
  | standard =>
    obtain rfl : first = [] := fresh rfl
    exact ⟨(fixAll errors r.files).2, rfl, fixAll_repaired errors r.files, rfl, rfl⟩

/-- An attempt that leaves off without repairs of its own. -/
theorem Attempted.unrepaired {env : Surroundings σ} {a : Attempt} {last : Bool}
    {opening : List VerifyState} {r : Run σ} {x : Exit} {result : AttemptEnd × Run σ}
    (message : Text) (ended : result.1 = x.ended a.tier last a.fixes)
    (hfiles : result.2.files = r.files)
    (hresult : result.2.result = { r.result with
      message
      attempts := r.result.attempts ++ x.recorded a last
      trace := ⟨r.result.trace.stages ++ x.stages opening a.tier.closing⟩
      pollCycles := r.result.pollCycles + x.polls })
    (dealings : ∃ ds, Dealings env r.world ds result.2.world ∧ (∀ d ∈ ds, d.IsRoutine r.files) ∧
      (x = .accepted → Submitted result.2.files ds)) :
    Attempted env a last opening r x [] result where
  ended := by rw [List.append_nil]; exact ended
  attempts := by rw [hresult, List.append_nil]
  stages := by rw [hresult]
  polls := by rw [hresult]
  repaired := hfiles ▸ .refl r.files
  report := by rw [hresult, List.append_nil]
  dealings := dealings

/-- What is done after the candidates have been submitted: the compiler is waited for. -/
theorem poll_spec (r : Run σ) {pre : List Dealing} {w : σ}
    (hpre : Dealings env w (pre ++ r.files.map Candidate.putIn) r.world)
    (hroutine : ∀ d ∈ pre ++ r.files.map Candidate.putIn, d.IsRoutine r.files) :
    (poll env o r).2.files = r.files ∧
      (poll env o r).2.result = { r.result with
        trace := r.result.trace.record .polling, pollCycles := r.result.pollCycles + 1 } ∧
      ∃ ds, Dealings env w ds (poll env o r).2.world ∧ (∀ d ∈ ds, d.IsRoutine r.files) ∧
        Submitted r.files ds := by
  have hquiet := poll_quiet env o r
  obtain ⟨ws, hws, hwait⟩ := hquiet.dealings
  refine ⟨hquiet.files, hquiet.result, _, hpre.append hws, fun d hd => ?_, pre, ws, rfl, hwait⟩
  exact (List.mem_append.1 hd).elim (hroutine d) fun hd => .inl (hwait d hd)

/-- An attempt is rejected after it has polled, and repairs follow. -/
theorem rejected_spec (cycle : Nat) (tier : Tier) (first : List Alteration) (last timedOut : Bool)
    (errors : List CompileError) (r : Run σ) {r' : Run σ} (fresh : tier = .standard → first = [])
    (hfiles : r'.files = r.files)
    (hresult : r'.result = { r.result with
      trace := ⟨r.result.trace.stages ++ [.submitted, .polling]⟩
      pollCycles := r.result.pollCycles + 1 })
    {ds : List Dealing} (hds : Dealings env r.world ds r'.world)
    (hroutine : ∀ d ∈ ds, d.IsRoutine r.files) : ∃ fixes,
      Attempted env { cycle, tier, fixes := first } last [] r (.rejected timedOut errors) fixes
        (repairAfter { cycle, tier, timedOut, errors, fixes := first } last
          ({ r' with lastErrors := errors }.enter .errorsFound)) := by
  obtain ⟨fixes, hended, hrepaired, hworld, hafter⟩ :=
    repairAfter_spec { cycle, tier, timedOut, errors, fixes := first } last
      ({ r' with lastErrors := errors }.enter .errorsFound) fresh
  refine ⟨fixes, hended, ?_, ?_, ?_, hfiles ▸ hrepaired, ?_, ds,
    by rw [hworld]; exact hds, hroutine, nofun⟩
  · rw [hafter]
    simp only [Run.enter, hresult]
    rfl
  · rw [hafter]
    simp only [Run.enter, hresult, StageTrace.record, Exit.stages, List.nil_append, List.append_assoc]
    rfl
  · rw [hafter]
    simp only [Run.enter, hresult]
    rfl
  · rw [hafter]
    simp only [Run.enter, hresult]

/-- Submitting the candidates and waiting for the compiler. The attempt may have begun with repairs. -/
theorem compile_spec (cycle : Nat) (tier : Tier) (first : List Alteration) (last : Bool) (r : Run σ)
    (fresh : tier = .standard → first = []) : ∃ x fixes, x ≠ .withdrawn ∧
      Attempted env { cycle, tier, fixes := first } last [] r x fixes
        (compile env o { cycle, tier, fixes := first } last r) := by
  obtain ⟨ds, hds, hroutine, hfiles, hresult, hdone⟩ := submit_spec env o (r.enter .submitted)
  rw [compile]
  -- one case for each way in which submitting can end, then one for each end of the polling
  split
  · next m r₁ h =>
    rw [h] at hds hfiles hresult
    refine ⟨.unheard m, [], by simp, .unrepaired r.result.message rfl hfiles ?_
      ⟨ds, hds, hroutine, nofun⟩⟩
    dsimp only at hresult ⊢
    rw [hresult, Exit.recorded, Exit.ended, List.append_nil]
    rfl
  · next e r₁ h =>
    rw [h] at hds hfiles hresult
    refine ⟨.refused, [], by simp, .unrepaired ("submission failed: ".toList ++ e.message) rfl hfiles
      ?_ ⟨ds, hds, hroutine, nofun⟩⟩
    dsimp only [close, Run.record, Run.note] at hresult ⊢
    rw [hresult]
    rfl
  · next r₁ h =>
    rw [h] at hds hfiles hresult
    obtain ⟨pre, rfl⟩ := hdone r₁ h
    dsimp only at hds hfiles hresult hroutine
    -- `poll_spec` speaks of the files of the verification that polls, which are those submitted
    rw [← hfiles] at hds hroutine
    obtain ⟨hfiles', hpoll, es, hes, hroutine', hsubmitted⟩ := poll_spec env o r₁ hds hroutine
    rw [hfiles] at hfiles' hroutine' hsubmitted
    have hresult' : (poll env o r₁).2.result = { r.result with
        trace := ⟨r.result.trace.stages ++ [.submitted, .polling]⟩
        pollCycles := r.result.pollCycles + 1 } := by
      rw [hpoll, hresult]
      simp only [Run.enter, StageTrace.record, List.append_assoc, List.singleton_append]
    split
    · next m r₂ hp =>
      rw [hp] at hfiles' hresult' hes
      refine ⟨.lost m, [], by simp, .unrepaired r.result.message rfl hfiles' ?_
        ⟨es, hes, hroutine', nofun⟩⟩
      dsimp only at hresult' ⊢
      rw [hresult', Exit.recorded, Exit.ended, List.append_nil]
      rfl
    · next r₂ hp =>
      rw [hp] at hfiles' hresult' hes
      refine ⟨.stopped, [], by simp, .unrepaired r.result.message rfl hfiles' ?_
        ⟨es, hes, hroutine', nofun⟩⟩
      dsimp only [close, Run.record, Run.note] at hresult' ⊢
      rw [hresult']
      rfl
    · next r₂ hp =>
      rw [hp] at hfiles' hresult' hes
      refine ⟨.accepted, [], by simp, .unrepaired r.result.message rfl hfiles' ?_
        ⟨es, hes, hroutine', fun _ => hfiles' ▸ hsubmitted⟩⟩
      dsimp only [close, Run.record, Run.note, Run.enter, StageTrace.record] at hresult' ⊢
      rw [hresult', List.append_assoc]
      rfl
    · next r₂ hp =>
      rw [hp] at hfiles' hresult' hes
      obtain ⟨fixes, h⟩ :=
        rejected_spec env cycle tier first last true [] r fresh hfiles' hresult' hes hroutine'
      exact ⟨.rejected true [], fixes, by simp, h⟩
    · next errors r₂ hp =>
      rw [hp] at hfiles' hresult' hes
      obtain ⟨fixes, h⟩ :=
        rejected_spec env cycle tier first last false errors r fresh hfiles' hresult' hes hroutine'
      exact ⟨.rejected false errors, fixes, by simp, h⟩

/-- What is routine is a matter of what the candidates stand for. -/
theorem isRoutine_congr {files files' : List Candidate} {d : Dealing}
    (h : files'.map Candidate.identity = files.map Candidate.identity) :
    d.IsRoutine files' ↔ d.IsRoutine files := by
  have hpaths : files'.map (·.path) = files.map (·.path) := map_eq_of_identity (·.2.1) h
  have houtputs : outputs files' = outputs files := congrArg List.flatten
    (map_eq_of_identity (fun i => [i.2.2.1, mapPath i.2.2.1]) h)
  rw [Dealing.IsRoutine, hpaths, houtputs, Dealing.IsRoutine]

/-- **An attempt may begin with repairs**, after it has been asked whether to go on. -/
theorem Attempted.begun {env : Surroundings σ} {a : Attempt} {last : Bool}
    {opening : List VerifyState} {first more : List Alteration} {r r₁ : Run σ} {x : Exit}
    {result : AttemptEnd × Run σ} (h : Attempted env { a with fixes := first } last [] r₁ x more result)
    (hx : x ≠ .withdrawn) (ha : a.fixes = []) (hfirst : Repaired r.files (r₁.files, first))
    (hresult : r₁.result = { r.result with
      report := r.result.report ++ first, trace := ⟨r.result.trace.stages ++ opening⟩ })
    (hasked : env.isCancelled r.world = (false, r₁.world)) :
    Attempted env a last opening r x (first ++ more) result where
  ended := by rw [h.ended, ha, List.nil_append]
  attempts := by rw [h.attempts, hresult, ha, List.nil_append]
  stages := by
    rw [h.stages, hresult]
    cases x with
    | withdrawn => exact absurd rfl hx
    | _ => simp [Exit.stages]
  polls := by rw [h.polls, hresult]
  repaired := hfirst.trans h.repaired
  report := by rw [h.report, hresult, List.append_assoc]
  dealings := by
    obtain ⟨ds, hds, hroutine, hsubmitted⟩ := h.dealings
    refine ⟨.asked false :: ds, .cons hasked hds, fun d hd => ?_, fun ha => ?_⟩
    · rcases List.mem_cons.1 hd with rfl | hd
      · exact .inl trivial
      · exact (isRoutine_congr hfirst.identity).1 (hroutine d hd)
    · obtain ⟨pre, post, rfl, hpost⟩ := hsubmitted ha
      exact ⟨.asked false :: pre, post, rfl, hpost⟩

/-- **What an attempt does.** -/
theorem attempt_spec (tier : Tier) (last : Bool) (r : Run σ) : ∃ x fixes,
    Attempted env { cycle := r.result.attempts.length + 1, tier } last tier.opening r x fixes
      (attempt env o tier last r) := by
  simp only [attempt]
  cases h : env.isCancelled r.world with
  | mk cancelled world =>
    cases cancelled with
    | true =>
      -- nothing is done, and only that it has been cancelled goes on record
      refine ⟨.withdrawn, [], .unrepaired r.result.message rfl rfl ?_
        ⟨[.asked true], .single h, ?_, nofun⟩⟩
      · simp only [Exit.stages, List.append_nil]
        rfl
      · intro d hd
        rw [List.mem_singleton.1 hd]
        exact .inl trivial
    | false =>
      cases tier with
      | standard =>
        obtain ⟨x, fixes, hx, hx'⟩ := compile_spec env o (r.result.attempts.length + 1) .standard []
          last { r with world } fun _ => rfl
        refine ⟨x, [] ++ fixes, hx'.begun hx rfl ?_ ?_ h⟩
        · exact .refl r.files
        · simp only [Tier.opening, List.append_nil]
      | aggressive =>
        have hfirst := ((RepairCall.aggressive).repaired r.files).trans
          (fixAll_repaired r.lastErrors (fixAggressively r.files).1)
        obtain ⟨x, fixes, hx, hx'⟩ := compile_spec env o (r.result.attempts.length + 1) .aggressive
          ((fixAggressively r.files).2 ++ (fixAll r.lastErrors (fixAggressively r.files).1).2) last
          (({ r with world }.enter .aggressiveFixing).alter
            (fixAll r.lastErrors (fixAggressively r.files).1).1
            ((fixAggressively r.files).2 ++ (fixAll r.lastErrors (fixAggressively r.files).1).2))
          nofun
        exact ⟨x, _, hx'.begun hx rfl hfirst rfl h⟩

/-! ## All attempts -/

/-- **The course of the attempts of a tier**, of which so many are left. -/
inductive Tried (env : Surroundings σ) (tier : Tier) :
    AttemptOutcome → Nat → Run σ → AttemptEnd × Run σ → Prop
  /-- There is not a single attempt. -/
  | out {none : AttemptOutcome} {r : Run σ} : Tried env tier none 0 r (.ok none, r)
  /-- An attempt is the last one. -/
  | done {none : AttemptOutcome} {left : Nat} {r : Run σ} {x : Exit} {fixes : List Alteration}
      {result : AttemptEnd × Run σ}
      (attempted : Attempted env { cycle := r.result.attempts.length + 1, tier } (left = 0)
        tier.opening r x fixes result)
      (settled : result.1 ≠ .ok .retry) : Tried env tier none (left + 1) r result
  /-- Another attempt follows. -/
  | again {none : AttemptOutcome} {left : Nat} {r r' : Run σ} {x : Exit} {fixes : List Alteration}
      {result : AttemptEnd × Run σ}
      (attempted : Attempted env { cycle := r.result.attempts.length + 1, tier } (left = 0)
        tier.opening r x fixes (.ok .retry, r'))
      (others : Tried env tier .retry left r' result) : Tried env tier none (left + 1) r result

theorem attempts_spec (tier : Tier) (none : AttemptOutcome) (left : Nat) (r : Run σ) :
    Tried env tier none left r (attempts env o tier none left r) := by
  induction left generalizing none r with
  | zero => exact .out
  | succ left ih =>
    obtain ⟨x, fixes, h⟩ := attempt_spec env o tier (left = 0) r
    rw [attempts]
    split
    · next r' hr =>
      rw [hr] at h
      exact .again h (ih .retry r')
    · next ended r' hne hr =>
      rw [hr] at h
      exact .done h hne

/-- **The course of the attempts of both tiers.** -/
inductive TriedBoth (env : Surroundings σ) (o : VerifyOptions) :
    Run σ → AttemptEnd × Run σ → Prop
  | standard {r : Run σ} {result : AttemptEnd × Run σ}
      (tried : Tried env .standard .escalate o.maxRetries.toNat r result)
      (settled : result.1 ≠ .ok .escalate) : TriedBoth env o r result
  | both {r r' : Run σ} {result : AttemptEnd × Run σ}
      (tried : Tried env .standard .escalate o.maxRetries.toNat r (.ok .escalate, r'))
      (escalated : Tried env .aggressive .exhausted o.maxEscalations.toNat r' result) :
      TriedBoth env o r result

theorem bothTiers_spec (r : Run σ) : TriedBoth env o r (bothTiers env o r) := by
  have htried := attempts_spec env o .standard .escalate o.maxRetries.toNat r
  rw [bothTiers]
  split
  · next r' hr =>
    rw [hr] at htried
    exact .both htried (attempts_spec ..)
  · next ended r' hne hr =>
    rw [hr] at htried
    exact .standard htried hne

/-! ## Progress -/

/-- The last attempt on record has succeeded. -/
def Verification.accepted (v : Verification) : Prop :=
  ∃ a, v.attempts.getLast? = some a ∧ a.outcome = .success

/-- **What attempts come to**, one or many of them. -/
structure Progress (env : Surroundings σ) (r : Run σ) (result : AttemptEnd × Run σ) : Prop where
  repaired : ∃ fixes, Repaired r.files (result.2.files, fixes) ∧
    result.2.result.report = r.result.report ++ fixes
  stages : ∃ states, result.2.result.trace.stages = r.result.trace.stages ++ states ∧
    .cleaningUp ∉ states
  accepted : ¬ r.result.accepted → (result.1 = .ok .success ↔ result.2.result.accepted)
  dealings : ∃ ds, Dealings env r.world ds result.2.world ∧ (∀ d ∈ ds, d.IsRoutine r.files) ∧
    (result.1 = .ok .success → Submitted result.2.files ds)

namespace Progress

variable {env} {r r' : Run σ} {result : AttemptEnd × Run σ}

theorem none (outcome : AttemptOutcome) (h : outcome ≠ .success) (r : Run σ) :
    Progress env r (.ok outcome, r) where
  repaired := ⟨[], .refl r.files, (List.append_nil _).symm⟩
  stages := ⟨[], (List.append_nil _).symm, by simp⟩
  accepted hr := iff_of_false (fun he => h (Except.ok.inj he)) hr
  dealings := ⟨[], .nil, by simp, fun he => absurd (Except.ok.inj he) h⟩

/-- Attempts that do not succeed may be followed by others. -/
theorem trans {ended : AttemptEnd} (h : Progress env r (ended, r')) (hne : ended ≠ .ok .success)
    (h' : Progress env r' result) : Progress env r result := by
  obtain ⟨fixes, hrep, hreport⟩ := h.repaired
  obtain ⟨fixes', hrep', hreport'⟩ := h'.repaired
  obtain ⟨states, hstates, hclean⟩ := h.stages
  obtain ⟨states', hstates', hclean'⟩ := h'.stages
  obtain ⟨ds, hds, hroutine, -⟩ := h.dealings
  obtain ⟨es, hes, hroutine', hsubmitted⟩ := h'.dealings
  -- only the last part can end with a success, so only its dealings have to end with a submission
  refine ⟨⟨fixes ++ fixes', hrep.trans hrep', ?_⟩, ⟨states ++ states', ?_, ?_⟩, fun hr => ?_,
    ds ++ es, hds.append hes, fun d hd => ?_, fun he => ?_⟩
  · rw [hreport', hreport, List.append_assoc]
  · rw [hstates', hstates, List.append_assoc]
  · exact fun hm => (List.mem_append.1 hm).elim hclean hclean'
  · exact h'.accepted fun ha => hne ((h.accepted hr).2 ha)
  · exact (List.mem_append.1 hd).elim (hroutine d)
      fun hd => (isRoutine_congr hrep.identity).1 (hroutine' d hd)
  · obtain ⟨pre, post, rfl, hpost⟩ := hsubmitted he
    exact ⟨ds ++ pre, post, by simp only [List.append_assoc], hpost⟩

end Progress

/-- An attempt succeeds if its candidates are accepted, and in no other way. -/
theorem Exit.ended_success_iff (tier : Tier) (last : Bool) (fixes : List Alteration) (x : Exit) :
    x.ended tier last fixes = .ok .success ↔ x = .accepted := by
  cases x with
  | rejected timedOut errors =>
    cases tier <;> simp only [Exit.ended, Except.ok.injEq, reduceCtorEq, iff_false] <;> split <;> simp
  | _ => simp [Exit.ended]

theorem Attempted.progress {env : Surroundings σ} {tier : Tier} {last : Bool} {r : Run σ} {x : Exit}
    {fixes : List Alteration} {result : AttemptEnd × Run σ}
    (h : Attempted env { cycle := r.result.attempts.length + 1, tier } last tier.opening r x fixes
      result) : Progress env r result where
  repaired := ⟨fixes, h.repaired, h.report⟩
  stages := ⟨_, h.stages, by cases tier <;> cases x <;> simp [Exit.stages, Tier.opening, Tier.closing]⟩
  accepted hr := by
    rw [h.ended, Verification.accepted, h.attempts, Exit.recorded, List.nil_append]
    cases x.ended tier last fixes with
    | error m =>
      rw [List.append_nil]
      exact iff_of_false nofun hr
    | ok outcome => simp [Exit.attempt_outcome]
  dealings := by
    obtain ⟨ds, hds, hroutine, hsubmitted⟩ := h.dealings
    refine ⟨ds, hds, hroutine, fun he => hsubmitted ?_⟩
    rwa [h.ended, Exit.ended_success_iff] at he

theorem Tried.progress {env : Surroundings σ} {tier : Tier} {none : AttemptOutcome} {left : Nat} {r : Run σ}
    {result : AttemptEnd × Run σ} (h : Tried env tier none left r result) (hnone : none ≠ .success) :
    Progress env r result := by
  induction h with
  | out => exact .none _ hnone _
  | done attempted => exact attempted.progress
  | again attempted _ ih => exact attempted.progress.trans nofun (ih nofun)

/-- **All attempts of a verification**, one after the other. -/
theorem bothTiers_progress (r : Run σ) : Progress env r (bothTiers env o r) := by
  cases bothTiers_spec env o r with
  | standard tried => exact tried.progress nofun
  | both tried escalated => exact (tried.progress nofun).trans nofun (escalated.progress nofun)

end Flatsheet.Repair
