import Flatsheet.Proofs.Repair.Attempt

/-!
# `Proofs.Repair.Verification` — the course of a verification from beginning to end

A verification first reads its targets. If one of them cannot be read, that is all (`verify_unstaged`).
Otherwise it takes a `Course` (`verify_course`): attempts, perhaps writing back, the removal of what is left
over, waiting, and the reversion of the watched directory. A course names the worlds between these parts
and says all that proofs about whole verifications need to know.
-/

namespace Flatsheet.Repair

open Text Log

variable {σ : Type} {env : Surroundings σ} {o : VerifyOptions} {w : σ} {baseline : List Text}
  {targets : List Text} {files : List Candidate}

/-! ## Staging -/

/-- **Staging** reads every target and makes a candidate of each, in order. -/
theorem stage_spec {t : FileTree} (h : stage o t targets = .ok files) :
    files.map (·.target) = targets ∧
      ∀ f ∈ files, ∃ content, t.read f.target = .ok content ∧ f = .ofTarget o f.target content := by
  induction targets generalizing files with
  | nil => cases h; simp
  | cons target targets ih =>
    simp only [stage, bind, Except.bind] at h
    split at h
    · cases h
    · next content hread =>
      split at h
      · cases h
      · next others hothers =>
        cases h
        obtain ⟨htargets, hstaged⟩ := ih hothers
        refine ⟨by rw [List.map_cons, htargets]; rfl, fun f hf => ?_⟩
        rcases List.mem_cons.1 hf with rfl | hf
        · exact ⟨content, hread, rfl⟩
        · exact hstaged f hf

theorem names_of_stage {t : FileTree} (h : stage o t targets = .ok files) :
    files.map Candidate.name = targets.map Path.fileName := by
  rw [← (stage_spec h).1, List.map_map]
  rfl

/-- The candidate belongs to a target that can be read. -/
def Candidate.Fits (o : VerifyOptions) (t : FileTree) (f : Candidate) : Prop :=
  t.read f.target = .ok f.former ∧ f.path = candidatePath o f.target ∧
    f.compiled = compiledPath o f.target

theorem fits_of_stage {t : FileTree} (h : stage o t targets = .ok files) : ∀ f ∈ files, f.Fits o t := by
  intro f hf
  obtain ⟨content, hread, heq⟩ := (stage_spec h).2 f hf
  rw [heq]
  exact ⟨hread, rfl, rfl⟩

/-- Candidates begin with the lines of their targets, and none of them is dirty. -/
theorem fresh_of_stage {t : FileTree} (h : stage o t targets = .ok files) :
    ∀ f ∈ files, f.dirty = false ∧ f.lines = lines f.former := by
  intro f hf
  obtain ⟨content, -, heq⟩ := (stage_spec h).2 f hf
  rw [heq]
  exact ⟨rfl, rfl⟩

variable (env baseline)

/-- **If a target cannot be read, nothing at all is done.** -/
theorem verify_unstaged {e : FileTree.ReadError} (h : stage o (env.tree w) targets = .error e) :
    (verify env o targets baseline w).world = w ∧
      (verify env o targets baseline w).result =
        { outcome := .failed, message := "cannot stage candidates: ".toList ++ e.message,
          trace := ⟨[.failed]⟩ } := by
  rw [verify, h]
  exact ⟨rfl, rfl⟩

/-- A verification whose targets have been read makes its attempts, comes to its verdict and cleans up. -/
theorem verify_staged (h : stage o (env.tree w) targets = .ok files) :
    (verify env o targets baseline w).world =
        (cleanUp env o (pursue env o { world := w, baseline, files })).world ∧
      (verify env o targets baseline w).result =
        (cleanUp env o (pursue env o { world := w, baseline, files })).result := by
  rw [verify, h]
  exact ⟨rfl, rfl⟩

/-- Cleaning up adds to the result what it has to say about itself, and changes nothing else. -/
theorem verify_result (h : stage o (env.tree w) targets = .ok files) :
    (verify env o targets baseline w).result =
      { (pursue env o { world := w, baseline, files }).result with
        trace := (pursue env o { world := w, baseline, files }).result.trace.record .cleaningUp
        cleanupComplete := (verify env o targets baseline w).result.cleanupComplete
        reverted := (verify env o targets baseline w).result.reverted } := by
  obtain ⟨removals, waits, reversion, gone, handed, hcleaned⟩ :=
    cleanUp_spec env o (pursue env o { world := w, baseline, files })
  rw [(verify_staged env baseline h).2, hcleaned.result]

/-! ## The course -/

theorem leftovers_congr {files' : List Candidate}
    (h : files'.map Candidate.identity = files.map Candidate.identity) :
    leftovers files' = leftovers files :=
  congrArg List.flatten (map_eq_of_identity (fun i => [i.2.1, i.2.2.1, mapPath i.2.2.1]) h)

/-- **The course of a verification** whose targets have been read. -/
structure Course (env : Surroundings σ) (o : VerifyOptions) (w : σ) (files : List Candidate)
    (world : σ) (result : Verification) where
  /-- How the attempts have ended. -/
  ended : AttemptEnd
  /-- The candidates as the repairs have left them. -/
  repaired : List Candidate
  /-- The dealings of the attempts, and the world after them. -/
  tries : List Dealing
  tried : σ
  /-- The dealings of writing back. -/
  back : List Dealing
  concluded : σ
  /-- The removal of what is left over. -/
  removals : List Dealing
  gone : σ
  /-- Waiting until the removal has been noticed, and the world in which the directory is put back. -/
  waits : List Dealing
  handed : σ
  reversion : Reversion
  repairs : Repaired files (repaired, result.report)
  tries_lead : Dealings env w tries tried
  tries_routine : ∀ d ∈ tries, d.IsRoutine files
  submitted : ended = .ok .success → Submitted repaired tries
  accepted : ended = .ok .success ↔ result.accepted
  verdict : Verdict repaired ended result.outcome back
  back_lead : Dealings env tried back concluded
  removals_lead : Dealings env concluded removals gone
  removals_all : removals.map Dealing.removedPath? = (leftovers files).map some
  waits_lead : Dealings env gone waits handed
  waits_waiting : ∀ d ∈ waits, d.IsWaiting
  revert_leads : (Dealing.reverted o.watchDirectory reversion).Leads env handed world
  complete : result.cleanupComplete = removals.all Dealing.succeeds
  stages : ∃ states, result.trace.stages = states ++ [result.outcome.state, .cleaningUp] ∧
    .cleaningUp ∉ states

/-- **Every verification whose targets have been read takes its course.** -/
theorem verify_course (h : stage o (env.tree w) targets = .ok files) :
    Nonempty (Course env o w files (verify env o targets baseline w).world
      (verify env o targets baseline w).result) := by
  obtain ⟨hworld, hresult⟩ := verify_staged env baseline h
  obtain ⟨⟨fixes, hrepaired, hreport⟩, ⟨states, hstates, hclean⟩, haccepted, tries, htries, hroutine,
    hsubmitted⟩ := bothTiers_progress env o { world := w, baseline, files }
  have hpursue : pursue env o { world := w, baseline, files } =
      conclude env (bothTiers env o { world := w, baseline, files }).1
        (bothTiers env o { world := w, baseline, files }).2 := rfl
  -- nothing more is needed of the attempts than what they come to
  generalize bothTiers env o { world := w, baseline, files } = tried at *
  obtain ⟨outcome, message, back, hverdict, hback, hfiles, hconclude⟩ :=
    conclude_spec env tried.1 tried.2
  rw [← hpursue] at hback hfiles hconclude
  obtain ⟨removals, waits, reversion, gone, handed, hcleaned⟩ :=
    cleanUp_spec env o (pursue env o { world := w, baseline, files })
  have hfinal := hcleaned.result
  rw [hconclude] at hfinal
  rw [hworld, hresult]
  have hleft : leftovers (pursue env o { world := w, baseline, files }).files = leftovers files := by
    rw [hfiles]
    exact leftovers_congr hrepaired.identity
  refine ⟨{
    ended := tried.1
    repaired := tried.2.files
    tries
    tried := tried.2.world
    back
    concluded := _
    removals
    gone
    waits
    handed
    reversion
    repairs := ?_
    tries_lead := htries
    tries_routine := hroutine
    submitted := hsubmitted
    accepted := ?_
    verdict := ?_
    back_lead := hback
    removals_lead := hcleaned.removals_lead
    removals_all := hleft ▸ hcleaned.removals_all
    waits_lead := hcleaned.waits_lead
    waits_waiting := hcleaned.waits_waiting
    revert_leads := hcleaned.revert_leads
    complete := ?_
    stages := ⟨states, ?_, hclean⟩ }⟩
  · rw [hfinal]
    exact hreport ▸ hrepaired
  · rw [haccepted nofun, Verification.accepted, Verification.accepted, hfinal]
  · rw [hfinal]
    exact hverdict
  · rw [hfinal]
  · rw [hfinal]
    simp only [StageTrace.record, hstates, List.nil_append, List.append_assoc]
    rfl

namespace Course

variable {env} {world : σ} {result : Verification}

/-- All that is done before the watched directory is put back. -/
def history (c : Course env o w files world result) : List Dealing :=
  c.tries ++ (c.back ++ (c.removals ++ c.waits))

theorem history_leads (c : Course env o w files world result) :
    Dealings env w c.history c.handed :=
  c.tries_lead.append (c.back_lead.append (c.removals_lead.append c.waits_lead))

/-- Repairs do not change what the candidates stand for. -/
theorem identity (c : Course env o w files world result) :
    c.repaired.map Candidate.identity = files.map Candidate.identity := c.repairs.identity

theorem removals_of_leftovers (c : Course env o w files world result) :
    ∀ d ∈ c.removals, d.IsRemovalOf (leftovers files) :=
  isRemovalOf_of_map c.removals_all

/-- Nothing is written back unless the last attempt has succeeded, and then only targets are. -/
theorem back_to_targets (c : Course env o w files world result) :
    ∀ d ∈ c.back, result.accepted ∧ d.IsWriteTo (files.map (·.target)) := by
  intro d hd
  obtain ⟨hended, hwrite⟩ := c.verdict.isWriteTo d hd
  have htargets : c.repaired.map (·.target) = files.map (·.target) :=
    map_eq_of_identity (·.1) c.identity
  exact ⟨c.accepted.1 hended, htargets ▸ hwrite⟩

/-- **What a verification does**, before it has the watched directory put back: it waits, writes
candidates, removes leftovers and, if the last attempt has succeeded, writes targets. -/
theorem history_kinds (c : Course env o w files world result) : ∀ d ∈ c.history,
    d.IsWaiting ∨ d.IsWriteTo (files.map (·.path)) ∨ d.IsRemovalOf (leftovers files) ∨
      result.accepted ∧ d.IsWriteTo (files.map (·.target)) := by
  have houtputs : outputs files ⊆ leftovers files := by
    intro p hp
    obtain ⟨f, hf, hpf⟩ := List.mem_flatMap.1 hp
    exact List.mem_flatMap.2 ⟨f, hf, List.mem_cons_of_mem _ hpf⟩
  intro d hd
  simp only [history, List.mem_append] at hd
  rcases hd with hd | hd | hd | hd
  · rcases c.tries_routine d hd with hwait | hwrite | hremoval
    · exact .inl hwait
    · exact .inr (.inl hwrite)
    · exact .inr (.inr (.inl (isRemovalOf_mono houtputs hremoval)))
  · exact .inr (.inr (.inr (c.back_to_targets d hd)))
  · exact .inr (.inr (.inl (c.removals_of_leftovers d hd)))
  · exact .inl (c.waits_waiting d hd)

theorem history_not_reversion (c : Course env o w files world result) :
    ∀ d ∈ c.history, ¬ d.IsReversion := by
  intro d hd hrev
  have hkinds := c.history_kinds d hd
  cases d with
  | reverted => exact hkinds.elim id (Or.rec id (Or.rec id (·.2)))
  | _ => exact hrev

end Course

end Flatsheet.Repair
