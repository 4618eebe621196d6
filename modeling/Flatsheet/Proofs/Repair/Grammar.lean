import Flatsheet.Proofs.Repair.Steady
import Flatsheet.Proofs.Repair.Verification
import Mathlib.Data.List.Forall2

/-!
# `Proofs.Repair.Grammar` — which sequences of attempts and states a verification can show

As long as the log and its parser hold out, a verification whose targets can be read shows its attempts and
its states in a fixed form, and `Conforms` says in which.

* **One attempt** goes on record with its number, its tier and its outcome, and it `Passes` through the
  states that belong to these (`Attempted.advance`).
* **The attempts of a tier** (`InTier`) stay within their budget, and all but the last one call for another
  (`Tried.advance`, by induction on the course of the attempts).
* **Both tiers.** An aggressive attempt follows only on a standard attempt that escalates, or on none at all
  (`TriedBoth.advance`).
* **The verdict** depends on the outcome of the last attempt and on what came of writing back.
-/

namespace Flatsheet.Repair

open Text Log

variable {σ : Type} {env : Surroundings σ} {o : VerifyOptions} {r r' r'' : Run σ}

/-! ## The form of attempts and states -/

/-- The outcome of a rejected attempt with which its tier is given up. -/
def Tier.surrender : Tier → AttemptOutcome
  | standard => .escalate
  | aggressive => .exhausted

/-- **The states that an attempt on record has passed through.** -/
inductive Passes : Attempt → List VerifyState → Prop
  /-- It was cancelled before anything was submitted. -/
  | withdrawn {a : Attempt} (cancelled : a.outcome = .cancelled) : Passes a []
  /-- Submitting has failed. -/
  | refused {a : Attempt} (exhausted : a.outcome = .exhausted) :
      Passes a (a.tier.opening ++ [.submitted])
  /-- It was cancelled while the compiler was at work. -/
  | stopped {a : Attempt} (cancelled : a.outcome = .cancelled) :
      Passes a (a.tier.opening ++ [.submitted, .polling])
  | accepted {a : Attempt} (success : a.outcome = .success) :
      Passes a (a.tier.opening ++ [.submitted, .polling, .success])
  | rejected {a : Attempt} (failed : a.outcome = .retry ∨ a.outcome = a.tier.surrender) :
      Passes a (a.tier.opening ++ [.submitted, .polling, .errorsFound] ++ a.tier.closing)

/-- **The attempts of a tier** within a budget. All but the last call for another one, which in the
standard tier they only do if they have repaired something. -/
structure InTier (tier : Tier) (budget : Nat) (as : List Attempt) : Prop where
  alike : ∀ a ∈ as, a.tier = tier
  within : as.length ≤ budget
  retried : ∀ a ∈ as.dropLast, a.outcome = .retry ∧ (tier = .standard → a.fixes ≠ [])
  settled : ∀ a, as.getLast? = some a → a.outcome ≠ .retry

/-- The outcome that follows from that of the last attempt and from what came of writing back. -/
def verdict (back : Except FileTree.WriteError Unit) : Option AttemptOutcome → VerifyOutcome
  | some .success => match back with
    | .ok () => .succeeded
    | .error _ => .failed
  | some .cancelled => .cancelled
  | _ => .failed

/-- **The form of a verification whose targets have been read**, given what came of writing back. -/
structure Conforms (o : VerifyOptions) (back : Except FileTree.WriteError Unit) (v : Verification) :
    Prop where
  /-- First come standard attempts, then aggressive ones, each within their budget. -/
  tiers : ∃ standard aggressive, v.attempts = standard ++ aggressive ∧
    InTier .standard o.maxRetries.toNat standard ∧
    InTier .aggressive o.maxEscalations.toNat aggressive ∧
    (aggressive ≠ [] → o.maxRetries.toNat = 0 ∨
      ∃ a, standard.getLast? = some a ∧ a.outcome = .escalate)
  /-- The attempts are numbered from one. -/
  cycles : v.attempts.map (·.cycle) = List.range' 1 v.attempts.length
  outcome : v.outcome = verdict back (v.attempts.getLast?.map (·.outcome))
  /-- The states are those of the attempts, one after the other, then the verdict, then cleaning up; and
  each attempt that has polled counts once. -/
  states : ∃ parts, List.Forall₂ Passes v.attempts parts ∧
    v.trace.stages = parts.flatten ++ [v.outcome.state, .cleaningUp] ∧
    v.pollCycles = parts.countP (.polling ∈ ·)
  /-- So the polls are counted as often as the state of polling is entered. -/
  polls : v.pollCycles = v.trace.stages.count .polling

namespace InTier

variable {tier : Tier} {budget : Nat} {a : Attempt} {as : List Attempt}

theorem none : InTier tier budget [] := ⟨nofun, Nat.zero_le _, nofun, nofun⟩

theorem single (htier : a.tier = tier) (settled : a.outcome ≠ .retry) :
    InTier tier (budget + 1) [a] where
  alike := by simpa using htier
  within := by simp
  retried := nofun
  settled := by simpa using settled

theorem cons (h : InTier tier budget as) (hne : as ≠ []) (htier : a.tier = tier)
    (retry : a.outcome = .retry) (repaired : tier = .standard → a.fixes ≠ []) :
    InTier tier (budget + 1) (a :: as) := by
  obtain ⟨b, bs, rfl⟩ := List.exists_cons_of_ne_nil hne
  refine ⟨?_, Nat.succ_le_succ h.within, ?_, ?_⟩
  · intro c hc
    rcases List.mem_cons.1 hc with rfl | hc
    · exact htier
    · exact h.alike c hc
  · intro c hc
    rw [List.dropLast_cons_cons] at hc
    rcases List.mem_cons.1 hc with rfl | hc
    · exact ⟨retry, repaired⟩
    · exact h.retried c hc
  · rw [List.getLast?_cons_cons]
    exact h.settled

end InTier

/-! ## One attempt -/

theorem Exit.attempt_cycle (a : Attempt) (outcome : AttemptOutcome) (x : Exit) :
    (x.attempt a outcome).cycle = a.cycle := by
  cases x <;> rfl

theorem Exit.attempt_tier (a : Attempt) (outcome : AttemptOutcome) (x : Exit) :
    (x.attempt a outcome).tier = a.tier := by
  cases x <;> rfl

theorem Exit.attempt_fixes (a : Attempt) (outcome : AttemptOutcome) (x : Exit) :
    (x.attempt a outcome).fixes = a.fixes := by
  cases x <;> rfl

/-- An attempt calls for another one only if it is not the last, and in the standard tier only if it has
repaired something. -/
theorem Exit.retry_of_ended {tier : Tier} {last : Bool} {fixes : List Alteration} {x : Exit}
    (h : x.ended tier last fixes = .ok .retry) :
    last = false ∧ (tier = .standard → fixes ≠ []) := by
  cases x with
  | rejected timedOut errors => cases tier <;> cases last <;> cases fixes <;> simp_all [Exit.ended]
  | _ => cases h

/-- The states of an attempt belong to its outcome. -/
theorem Exit.passes {a : Attempt} {last : Bool} {outcome : AttemptOutcome} {x : Exit}
    (h : x.ended a.tier last a.fixes = .ok outcome) :
    Passes (x.attempt a outcome) (x.stages a.tier.opening a.tier.closing) := by
  cases x with
  | unheard | lost => cases h
  | withdrawn => cases h; exact .withdrawn rfl
  | refused => cases h; exact .refused rfl
  | stopped => cases h; exact .stopped rfl
  | accepted => cases h; exact .accepted rfl
  | rejected timedOut errors =>
    refine .rejected (a := (Exit.rejected timedOut errors).attempt a outcome) ?_
    obtain ⟨cycle, tier, t, es, fixes, out⟩ := a
    simp only [Exit.ended, Except.ok.injEq] at h
    subst h
    cases tier
    · dsimp only [Exit.attempt, Tier.surrender]
      split <;> simp
    · dsimp only [Exit.attempt, Tier.surrender]
      split <;> simp

/-- **Attempts that are made between two points of a verification**, with the states of each. -/
structure Advance (r : Run σ) (as : List Attempt) (parts : List (List VerifyState)) (r' : Run σ) :
    Prop where
  attempts : r'.result.attempts = r.result.attempts ++ as
  cycles : as.map (·.cycle) = List.range' (r.result.attempts.length + 1) as.length
  passes : List.Forall₂ Passes as parts
  stages : r'.result.trace.stages = r.result.trace.stages ++ parts.flatten
  polls : r'.result.pollCycles = r.result.pollCycles + parts.countP (.polling ∈ ·)

namespace Advance

theorem refl (r : Run σ) : Advance r [] [] r := by
  constructor <;> simp

theorem trans {as bs : List Attempt} {parts parts' : List (List VerifyState)}
    (h : Advance r as parts r') (h' : Advance r' bs parts' r'') :
    Advance r (as ++ bs) (parts ++ parts') r'' where
  attempts := by rw [h'.attempts, h.attempts, List.append_assoc]
  cycles := by
    rw [List.map_append, h.cycles, h'.cycles, h.attempts, List.length_append, List.length_append,
      ← List.range'_append_1, Nat.add_right_comm]
  passes := List.rel_append h.passes h'.passes
  stages := by rw [h'.stages, h.stages, List.flatten_append, List.append_assoc]
  polls := by rw [h'.polls, h.polls, List.countP_append, Nat.add_assoc]

end Advance

/-- **An attempt that does not break down** is put on record. -/
theorem Attempted.advance {tier : Tier} {last : Bool} {x : Exit} {fixes : List Alteration}
    {result : AttemptEnd × Run σ} {outcome : AttemptOutcome}
    (h : Attempted env { cycle := r.result.attempts.length + 1, tier } last tier.opening r x fixes
      result) (hended : result.1 = .ok outcome) : ∃ a part, Advance r [a] [part] result.2 ∧
        a.tier = tier ∧ a.outcome = outcome ∧
        (outcome = .retry → last = false ∧ (tier = .standard → a.fixes ≠ [])) := by
  have hx : x.ended tier last fixes = .ok outcome := by
    rw [← hended, h.ended, List.nil_append]
  refine ⟨x.attempt { cycle := r.result.attempts.length + 1, tier, fixes } outcome,
    x.stages tier.opening tier.closing, ⟨?_, ?_, ?_, ?_, ?_⟩, Exit.attempt_tier .., x.attempt_outcome ..,
    ?_⟩
  · rw [h.attempts, Exit.recorded, List.nil_append, hx]
  · rw [List.map_singleton, Exit.attempt_cycle]
    rfl
  · exact .cons (Exit.passes hx) .nil
  · rw [h.stages, List.flatten_singleton]
  · rw [h.polls]
    cases tier <;> cases x <;> rfl
  · rintro rfl
    rw [Exit.attempt_fixes]
    exact Exit.retry_of_ended hx

/-! ## All attempts -/

/-- **The attempts of a tier, none of which breaks down.** The last one has the last word, unless there is
none at all. -/
theorem Tried.advance {tier : Tier} {none : AttemptOutcome} {left : Nat} {result : AttemptEnd × Run σ}
    (h : Tried env tier none left r result) (unbroken : ∀ m, result.1 ≠ .error m) :
    ∃ as parts, Advance r as parts result.2 ∧ InTier tier left as ∧ (as = [] → left = 0) ∧
      result.1 = .ok ((as.getLast?.map (·.outcome)).getD none) := by
  induction h with
  | out => exact ⟨[], [], .refl _, .none, fun _ => rfl, rfl⟩
  | @done none left r x fixes result attempted settled =>
    cases hended : result.1 with
    | error m => exact absurd hended (unbroken m)
    | ok outcome =>
      obtain ⟨a, part, hadvance, htier, houtcome, -⟩ := attempted.advance hended
      refine ⟨[a], [part], hadvance, .single htier ?_, nofun, ?_⟩
      · rw [houtcome]
        rintro rfl
        exact settled hended
      · rw [← houtcome]
        rfl
  | @again none left r r' x fixes result attempted others ih =>
    obtain ⟨a, part, hadvance, htier, houtcome, hretry⟩ := attempted.advance rfl
    obtain ⟨hlast, hrepaired⟩ := hretry rfl
    obtain ⟨as, parts, hadvance', htiers, hsome, hended⟩ := ih unbroken
    -- An attempt that calls for another is not the last one, so there is another.
    have hne : as ≠ [] := fun hnone => by simp [hsome hnone] at hlast
    refine ⟨a :: as, part :: parts, hadvance.trans hadvance', htiers.cons hne htier houtcome hrepaired,
      nofun, ?_⟩
    obtain ⟨b, bs, rfl⟩ := List.exists_cons_of_ne_nil hne
    rw [hended, List.getLast?_cons_cons, List.getLast?_cons]
    rfl

/-- **The attempts of both tiers, none of which breaks down.** -/
theorem TriedBoth.advance {result : AttemptEnd × Run σ} (h : TriedBoth env o r result)
    (unbroken : ∀ m, result.1 ≠ .error m) : ∃ standard aggressive parts ended,
      Advance r (standard ++ aggressive) parts result.2 ∧
      InTier .standard o.maxRetries.toNat standard ∧
      InTier .aggressive o.maxEscalations.toNat aggressive ∧
      (aggressive ≠ [] → o.maxRetries.toNat = 0 ∨
        ∃ a, standard.getLast? = some a ∧ a.outcome = .escalate) ∧
      result.1 = .ok ended ∧ ∀ back, verdict back (some ended) =
        verdict back ((standard ++ aggressive).getLast?.map (·.outcome)) := by
  cases h with
  | standard tried settled =>
    obtain ⟨as, parts, hadvance, htier, hsome, hended⟩ := tried.advance unbroken
    refine ⟨as, [], parts, _, by rwa [List.append_nil], htier, .none, absurd rfl, hended, fun back => ?_⟩
    rw [List.append_nil]
    cases hlast : as.getLast? with
    | none => exact absurd (by rw [hended, hlast]; rfl) settled
    | some a => rfl
  | both tried escalated =>
    obtain ⟨as, parts, hadvance, htier, hsome, hended⟩ := tried.advance nofun
    obtain ⟨bs, parts', hadvance', htier', -, hended'⟩ := escalated.advance unbroken
    have hescalate : as = [] ∨ ∃ a, as.getLast? = some a ∧ a.outcome = .escalate := by
      cases hlast : as.getLast? with
      | none => exact .inl (List.getLast?_eq_none_iff.1 hlast)
      | some a =>
        rw [hlast] at hended
        exact .inr ⟨a, rfl, (Except.ok.inj hended).symm⟩
    refine ⟨as, bs, parts ++ parts', _, hadvance.trans hadvance', htier, htier',
      fun _ => hescalate.imp_left hsome, hended', fun back => ?_⟩
    rw [List.getLast?_append]
    cases bs.getLast? with
    | some b => rfl
    | none =>
      -- Without an aggressive attempt the last one has not succeeded, nor was it cancelled.
      rcases hescalate with rfl | ⟨a, hlast, houtcome⟩
      · rfl
      · simp only [Option.none_or, hlast, Option.map_some, houtcome]
        rfl

/-! ## The whole verification -/

theorem conclude_outcome (env : Surroundings σ) (ended : AttemptOutcome) (r : Run σ) :
    (conclude env (.ok ended) r).result.outcome = verdict (writeBack env r.files r).1 (some ended) := by
  unfold conclude verdict
  cases ended with
  | success =>
    dsimp only
    split <;> next h => rw [h]; rfl
  | _ => rfl

/-- No attempt polls twice. -/
theorem Passes.count_polling {a : Attempt} {part : List VerifyState} (h : Passes a part) :
    part.count .polling = if .polling ∈ part then 1 else 0 := by
  cases h <;> cases a.tier <;> rfl

theorem count_polling_flatten {as : List Attempt} {parts : List (List VerifyState)}
    (h : List.Forall₂ Passes as parts) :
    parts.flatten.count .polling = parts.countP (.polling ∈ ·) := by
  induction h with
  | nil => rfl
  | cons hpart _ ih =>
    rw [List.flatten_cons, List.count_append, hpart.count_polling, ih, List.countP_cons, Nat.add_comm]
    simp only [decide_eq_true_eq]

/-- **The attempts and states of a verification have their form**, as long as the log and its parser hold
out. If a target cannot be read, there is no attempt, and failure is the only state. -/
theorem verify_conforms (env : Surroundings σ) (o : VerifyOptions) (targets baseline : List Text) (w : σ)
    (steady : Steady env o) :
    match stage o (env.tree w) targets with
    | .error _ =>
      (verify env o targets baseline w).result.outcome = .failed ∧
        (verify env o targets baseline w).result.attempts = [] ∧
        (verify env o targets baseline w).result.trace.stages = [.failed] ∧
        (verify env o targets baseline w).result.pollCycles = 0
    | .ok files =>
      let tried := (bothTiers env o { world := w, baseline, files }).2
      Conforms o (writeBack env tried.files tried).1 (verify env o targets baseline w).result := by
  split
  · next e h =>
    rw [(verify_unstaged env baseline h).2]
    exact ⟨rfl, rfl, rfl, rfl⟩
  · next files h =>
    intro tried
    have hresult := verify_result env baseline h
    obtain ⟨standard, aggressive, parts, ended, hadvance, hstandard, haggressive, hescalated, hended,
      hverdict⟩ := (bothTiers_spec env o { world := w, baseline, files }).advance
        (steady.bothTiers_unbroken _)
    -- the attempts have not broken down, so the verdict is one on an outcome
    have hpursue : pursue env o { world := w, baseline, files } = conclude env (.ok ended) tried := by
      rw [← hended]
      rfl
    obtain ⟨outcome, message, ds, -, -, -, hconclude⟩ := conclude_spec env (.ok ended) tried
    have houtcome := conclude_outcome env ended tried
    rw [hpursue, hconclude] at hresult
    rw [hconclude] at houtcome
    have hattempts : tried.result.attempts = standard ++ aggressive := hadvance.attempts
    have hstages : tried.result.trace.stages = parts.flatten := hadvance.stages
    have hpolls : tried.result.pollCycles = parts.countP (.polling ∈ ·) := by
      rw [hadvance.polls]
      exact Nat.zero_add _
    rw [hresult]
    refine ⟨⟨standard, aggressive, hattempts, hstandard, haggressive, hescalated⟩, ?_, ?_,
      ⟨parts, ?_, ?_, hpolls⟩, ?_⟩
    · dsimp only
      rw [hattempts]
      exact hadvance.cycles
    · dsimp only at houtcome ⊢
      rw [hattempts, houtcome, hverdict]
    · dsimp only
      rw [hattempts]
      exact hadvance.passes
    · simp only [StageTrace.record, hstages, List.append_assoc, List.singleton_append]
    · simp only [StageTrace.record, hstages, List.count_append]
      rw [hpolls, count_polling_flatten hadvance.passes]
      cases outcome <;> rfl

/-- A file that never compiles is tried once in each tier. -/
theorem form_of_mute_compiler :
    let t : FileTree := { entries := [(["a.scss".toList], .file "$a: b;".toList false)] }
    let o : VerifyOptions := { watchDirectory := "w".toList, maxRetries := 1, maxEscalations := 1,
                               pollInterval := 1, compileWait := 1, cleanupWait := 0 }
    let result := (verify (Surroundings.sleeping id) o ["a.scss".toList] [] (t, 0)).result
    ∃ back, Conforms o back result ∧ result.attempts.map (·.tier) = [.standard, .aggressive] := by
  intro t o result
  have hform := verify_conforms (Surroundings.sleeping id) o ["a.scss".toList] [] (t, 0)
    (steady_sleeping id o)
  cases hstage : stage o t ["a.scss".toList] with
  | error e =>
    have hok : (stage o t ["a.scss".toList]).isOk = true := by decide
    rw [hstage] at hok
    cases hok
  | ok files =>
    simp only [Surroundings.sleeping, hstage] at hform
    exact ⟨_, hform, by decide⟩

/-- **A verification that has read no targets does not clean up**: its only state is failure. -/
theorem unread_target_not_conforms : ¬ ∀ (env : Surroundings (FileTree × Nat)) (o : VerifyOptions)
    (targets baseline : List Text) (w : FileTree × Nat), Steady env o →
    ∃ back, Conforms o back (verify env o targets baseline w).result := by
  intro h
  let o : VerifyOptions := { watchDirectory := "w".toList }
  obtain ⟨back, hform⟩ := h (Surroundings.sleeping id) o ["a.scss".toList] [] ({ entries := [] }, 0)
    (steady_sleeping id o)
  obtain ⟨parts, -, hstages, -⟩ := hform.states
  have hfailed : (verify (Surroundings.sleeping id) o ["a.scss".toList] []
      ({ entries := [] }, 0)).result.trace.stages = [.failed] := rfl
  have hlength := congrArg List.length (hfailed.symm.trans hstages)
  simp at hlength

end Flatsheet.Repair
