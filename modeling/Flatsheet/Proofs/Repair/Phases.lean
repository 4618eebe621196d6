import Flatsheet.Proofs.Repair.Dealings
import Flatsheet.Repair.Loop

/-!
# `Proofs.Repair.Phases` — what each phase of a verification deals with

One statement for each phase. It says which dealings the phase has with the world and what it makes of the
verification; later proofs use it and do not look into the phase.

* **Waiting.** Reading the log and waiting for the compiler or the watcher are `Quiet`: nothing is written
  or removed, and the files and the result stay as they are.
* **Submitting** (`submit_spec`) removes former outputs and writes the candidates, all of them if it
  succeeds.
* **Writing back** (`writeBack_spec`) writes the changed targets, in order, up to the first failure.
* **Discarding** (`discardAll_spec`) removes all the paths, in order, whatever becomes of each.
-/

namespace Flatsheet.Repair

open Text Log

variable {σ : Type} {env : Surroundings σ} {o : VerifyOptions} {r r' r'' : Run σ} {d : Dealing}
  {ds : List Dealing}

/-! ## Waiting -/

/-- **Nothing happens but waiting**: nothing is written or removed, and nothing about the verification
changes. -/
structure Quiet (env : Surroundings σ) (r r' : Run σ) : Prop where
  dealings : ∃ ds, Dealings env r.world ds r'.world ∧ ∀ d ∈ ds, d.IsWaiting
  files : r'.files = r.files
  result : r'.result = r.result

namespace Quiet

theorem refl (r : Run σ) : Quiet env r r := ⟨⟨[], .nil, by simp⟩, rfl, rfl⟩

theorem trans (h : Quiet env r r') (h' : Quiet env r' r'') : Quiet env r r'' := by
  obtain ⟨ds, hds, hwait⟩ := h.dealings
  obtain ⟨es, hes, hwait'⟩ := h'.dealings
  refine ⟨⟨ds ++ es, hds.append hes, fun d hd => ?_⟩, h'.files.trans h.files,
    h'.result.trans h.result⟩
  exact (List.mem_append.1 hd).elim (hwait d) (hwait' d)

/-- A single dealing is one of waiting. -/
theorem single (hwait : d.IsWaiting) (h : d.Leads env r.world r'.world) (files : r'.files = r.files)
    (result : r'.result = r.result) : Quiet env r r' :=
  ⟨⟨[d], .single h, by simpa using hwait⟩, files, result⟩

/-- Only what is noted about the verification changes. -/
theorem of_eq (world : r'.world = r.world) (files : r'.files = r.files)
    (result : r'.result = r.result) : Quiet env r r' :=
  ⟨⟨[], world ▸ .nil, by simp⟩, files, result⟩

end Quiet

variable (env o)

theorem takeBaseline_quiet (stage : Text) (r : Run σ) :
    Quiet env r (takeBaseline env o stage r).2 := by
  rw [takeBaseline]
  split <;> next h => exact .single (d := .readLog o.tailLines _) trivial h rfl rfl

theorem readNewLines_quiet (r : Run σ) : Quiet env r (readNewLines env o r).2 := by
  rw [readNewLines]
  split <;> next h => exact .single (d := .readLog o.tailLines _) trivial h rfl rfl

theorem sleep_quiet (ms : Int) (r : Run σ) :
    Quiet env r { r with world := env.sleep ms r.world } :=
  .single (d := .slept ms) trivial rfl rfl rfl

/-- Errors that are noted down change nothing else. -/
theorem describe_quiet (es : List CompileError) (r : Run σ) :
    Quiet env r (es.foldl (fun r e => r.note .debug "poll".toList e.describe) r) := by
  induction es generalizing r with
  | nil => exact .refl r
  | cons e es ih =>
    have hnote : Quiet env r (r.note .debug "poll".toList e.describe) := .of_eq rfl rfl rfl
    exact hnote.trans (ih _)

theorem look_quiet (r : Run σ) : Quiet env r (look env o r).2 := by
  have hsleep := sleep_quiet env o.interval r
  simp only [look]
  split
  -- if everything has been compiled the log is not read at all
  · exact hsleep
  · have hread := hsleep.trans (readNewLines_quiet env o _)
    split
    · next h => rw [h] at hread; exact hread
    · next h =>
      rw [h] at hread
      split
      · exact hread
      · exact hread.trans (describe_quiet ..)
      · exact hread

theorem waitFor_quiet (deadline : Int) (looks : Nat) (r : Run σ) :
    Quiet env r (waitFor env o deadline looks r).2 := by
  induction looks generalizing r with
  | zero => exact .refl r
  | succ looks ih =>
    rw [waitFor]
    split
    · exact .refl r
    · split
      · next h => exact .single (d := .asked true) trivial h rfl rfl
      · next world h =>
        have hasked : Quiet env r { r with world } :=
          .single (d := .asked false) trivial h rfl rfl
        have hlook := hasked.trans (look_quiet env o _)
        split
        · next h => rw [h] at hlook; exact hlook
        · next h => rw [h] at hlook; exact hlook.trans (ih _)

theorem waitForWatcher_quiet (deadline : Int) (looks : Nat) (r : Run σ) :
    Quiet env r (waitForWatcher env o deadline looks r).2 := by
  induction looks generalizing r with
  | zero => exact .refl r
  | succ looks ih =>
    rw [waitForWatcher]
    split
    · exact .refl r
    · have hread := (sleep_quiet env o.interval r).trans
        (readNewLines_quiet env o _)
      split
      · next h => rw [h] at hread; exact hread
      · next h =>
        rw [h] at hread
        split
        · exact hread
        · exact hread.trans (ih _)

theorem letWatcherNotice_quiet (r : Run σ) : Quiet env r (letWatcherNotice env o r) := by
  have hread : ∀ (reading : LogReading) (world : σ) (baseline : List Text),
      env.tail o.tailLines r.world = (reading, world) → Quiet env r { r with world, baseline } :=
    fun reading world baseline h =>
      .single (d := .readLog o.tailLines reading) trivial h rfl rfl
  simp only [letWatcherNotice]
  cases h : env.tail o.tailLines r.world with
  | mk reading world =>
    cases reading with
    | broken m => exact (hread _ _ [] h).trans (.of_eq rfl rfl rfl)
    | unavailable m =>
      have hwait := (hread _ _ [] h).trans (waitForWatcher_quiet env o
        (env.now world + o.cleanupWait) (env.patience o.interval o.cleanupWait) _)
      dsimp only
      split
      · exact hwait
      · exact hwait.trans (.of_eq rfl rfl rfl)
    | lines ls =>
      have hwait := (hread _ _ ls h).trans (waitForWatcher_quiet env o
        (env.now world + o.cleanupWait) (env.patience o.interval o.cleanupWait) _)
      dsimp only
      split
      · exact hwait
      · exact hwait.trans (.of_eq rfl rfl rfl)

/-- **A poll is entered and counted, and then there is nothing but waiting.** -/
theorem poll_quiet (r : Run σ) :
    Quiet env { r with result := { r.result with
      trace := r.result.trace.record .polling, pollCycles := r.result.pollCycles + 1 } }
      (poll env o r).2 :=
  waitFor_quiet ..

/-! ## Submitting -/

/-- The outputs that the compiler is expected to make. -/
def outputs (files : List Candidate) : List Text :=
  files.flatMap fun f => [f.compiled, mapPath f.compiled]

/-- **What attempts are made of**: waiting, writing candidates and removing outputs. -/
def Dealing.IsRoutine (files : List Candidate) (d : Dealing) : Prop :=
  d.IsWaiting ∨ d.IsWriteTo (files.map (·.path)) ∨ d.IsRemovalOf (outputs files)

/-- The candidate is put into the watched directory. -/
def Candidate.putIn (f : Candidate) : Dealing := .wrote f.path f.content (.ok ())

theorem isRemovalOf_of_map {paths : List Text}
    (h : ds.map Dealing.removedPath? = paths.map some) : ∀ d ∈ ds, d.IsRemovalOf paths := by
  intro d hd
  have hmem : d.removedPath? ∈ paths.map some := h ▸ List.mem_map_of_mem hd
  obtain ⟨p, hp, heq⟩ := List.mem_map.1 hmem
  cases d with
  | removed path result =>
    cases heq
    exact hp
  | _ => cases heq

theorem removeOutputs_spec (files : List Candidate) (w : σ) :
    ∃ ds, Dealings env w ds (removeOutputs env files w) ∧
      ds.map Dealing.removedPath? = (outputs files).map some := by
  induction files generalizing w with
  | nil => exact ⟨[], .nil, rfl⟩
  | cons f files ih =>
    obtain ⟨ds, hds, hpaths⟩ := ih (env.remove (mapPath f.compiled) (env.remove f.compiled w).2).2
    refine ⟨.removed f.compiled _ :: .removed (mapPath f.compiled) _ :: ds,
      .cons rfl (.cons rfl hds), ?_⟩
    simp only [List.map_cons, hpaths, Dealing.removedPath?]
    rfl

theorem writeCandidates_spec (files : List Candidate) (w : σ) :
    ∃ ds, Dealings env w ds (writeCandidates env files w).2 ∧
      (∀ d ∈ ds, d.IsWriteTo (files.map (·.path))) ∧
      ((writeCandidates env files w).1 = .ok () → ds = files.map Candidate.putIn) := by
  induction files generalizing w with
  | nil => exact ⟨[], .nil, by simp, fun _ => rfl⟩
  | cons f files ih =>
    rw [writeCandidates]
    split
    · next world h =>
      obtain ⟨ds, hds, hpaths, hall⟩ := ih world
      refine ⟨f.putIn :: ds, .cons h hds, ?_, fun hok => by rw [hall hok]; rfl⟩
      intro d hd
      rcases List.mem_cons.1 hd with rfl | hd
      · exact List.mem_cons_self
      · exact isWriteTo_mono (List.subset_cons_self ..) (hpaths d hd)
    · next e world h =>
      refine ⟨[.wrote f.path f.content (.error e)], .single h, ?_, fun hok => by cases hok⟩
      intro d hd
      rw [List.mem_singleton.1 hd]
      exact List.mem_cons_self

/-- **Submitting** changes nothing about the verification; if it succeeds, the last thing it does is to
write all the candidates. -/
theorem submit_spec (r : Run σ) :
    ∃ ds, Dealings env r.world ds (submit env o r).2.world ∧ (∀ d ∈ ds, d.IsRoutine r.files) ∧
      (submit env o r).2.files = r.files ∧ (submit env o r).2.result = r.result ∧
      ∀ r', submit env o r = (.done, r') → ∃ pre, ds = pre ++ r.files.map Candidate.putIn := by
  obtain ⟨rs, hrs, hpaths⟩ := removeOutputs_spec env r.files r.world
  have hremovals : ∀ d ∈ rs, d.IsRoutine r.files := fun d hd =>
    .inr (.inr (isRemovalOf_of_map hpaths d hd))
  have hbase := takeBaseline_quiet env o "submit".toList
    { r with world := removeOutputs env r.files r.world }
  simp only [submit]
  -- the baseline can be read, or the compiler is lost
  split
  · next m r₁ h =>
    rw [h] at hbase
    obtain ⟨ws, hws, hwait⟩ := hbase.dealings
    refine ⟨rs ++ ws, hrs.append hws, fun d hd => ?_, hbase.files, hbase.result, fun _ hdone => ?_⟩
    · exact (List.mem_append.1 hd).elim (hremovals d) fun hd => .inl (hwait d hd)
    · cases hdone
  · next r₁ h =>
    rw [h] at hbase
    obtain ⟨ws, hws, hwait⟩ := hbase.dealings
    have hfiles : r₁.files = r.files := hbase.files
    obtain ⟨cs, hcs, hwrites, hall⟩ := writeCandidates_spec env r₁.files r₁.world
    rw [hfiles] at hwrites hall
    have hroutine : ∀ d ∈ rs ++ ws ++ cs, d.IsRoutine r.files := by
      intro d hd
      rcases List.mem_append.1 hd with hd | hd
      · exact (List.mem_append.1 hd).elim (hremovals d) fun hd => .inl (hwait d hd)
      · exact .inr (.inl (hwrites d hd))
    split
    · next world hw =>
      rw [hw] at hcs
      refine ⟨rs ++ ws ++ cs, (hrs.append hws).append hcs, hroutine, hfiles, hbase.result,
        fun _ _ => ⟨rs ++ ws, ?_⟩⟩
      rw [hall (by rw [← hfiles, hw])]
    · next e world hw =>
      rw [hw] at hcs
      exact ⟨rs ++ ws ++ cs, (hrs.append hws).append hcs, hroutine, hfiles, hbase.result,
        fun _ hdone => by cases hdone⟩

/-! ## Writing back -/

namespace Candidate

/-- The target is to be written: repairs have given it another text. -/
def changed (f : Candidate) : Bool := f.dirty && f.content ≠ f.former

/-- The repaired file is written. -/
def putBack (f : Candidate) : Dealing := .wrote f.target f.content (.ok ())

end Candidate

/-- The dealings of writing files back, with what comes of it. -/
inductive WrittenBack : List Candidate → Except FileTree.WriteError Unit → List Dealing → Prop
  | done (files : List Candidate) :
      WrittenBack files (.ok ()) ((files.filter Candidate.changed).map Candidate.putBack)
  | stopped (before : List Candidate) (f : Candidate) (after : List Candidate)
      (e : FileTree.WriteError) (changed : f.changed = true) :
      WrittenBack (before ++ f :: after) (.error e)
        ((before.filter Candidate.changed).map Candidate.putBack ++
          [.wrote f.target f.content (.error e)])

namespace WrittenBack

variable {files : List Candidate} {f : Candidate} {result : Except FileTree.WriteError Unit}

theorem skip (hf : f.changed = false) (h : WrittenBack files result ds) :
    WrittenBack (f :: files) result ds := by
  cases h with
  | done =>
    have hdone := WrittenBack.done (f :: files)
    rwa [List.filter_cons_of_neg (by simp [hf])] at hdone
  | stopped before g after e changed =>
    have hstop := WrittenBack.stopped (f :: before) g after e changed
    rwa [List.filter_cons_of_neg (by simp [hf])] at hstop

theorem write (hf : f.changed = true) (h : WrittenBack files result ds) :
    WrittenBack (f :: files) result (f.putBack :: ds) := by
  cases h with
  | done =>
    have hdone := WrittenBack.done (f :: files)
    rwa [List.filter_cons_of_pos hf] at hdone
  | stopped before g after e changed =>
    have hstop := WrittenBack.stopped (f :: before) g after e changed
    rwa [List.filter_cons_of_pos hf] at hstop

end WrittenBack

/-- **Writing back** changes nothing about the verification. -/
theorem writeBack_spec (files : List Candidate) (r : Run σ) :
    ∃ ds, Dealings env r.world ds (writeBack env files r).2.world ∧
      WrittenBack files (writeBack env files r).1 ds ∧
      (writeBack env files r).2.files = r.files ∧ (writeBack env files r).2.result = r.result := by
  induction files generalizing r with
  | nil => exact ⟨[], .nil, .done [], rfl, rfl⟩
  | cons f files ih =>
    rw [writeBack]
    split
    · next hskip =>
      obtain ⟨ds, hds, hback, hfiles, hresult⟩ := ih r
      have hunchanged : f.changed = false := by
        simp only [Bool.or_eq_true, Bool.not_eq_true', decide_eq_true_eq] at hskip
        rcases hskip with hclean | hsame
        · simp [Candidate.changed, hclean]
        · simp [Candidate.changed, hsame]
      exact ⟨ds, hds, hback.skip hunchanged, hfiles, hresult⟩
    · next hwrite =>
      have hchanged : f.changed = true := by simpa [Candidate.changed] using hwrite
      split
      · next world h =>
        obtain ⟨ds, hds, hback, hfiles, hresult⟩ := ih
          ({ r with world }.note .info "write_back".toList ("updated ".toList ++ f.target))
        exact ⟨f.putBack :: ds, .cons h hds, hback.write hchanged, hfiles, hresult⟩
      · next e world h =>
        exact ⟨[.wrote f.target f.content (.error e)], .single h,
          .stopped [] f files e hchanged, rfl, rfl⟩

/-! ## The verdict -/

/-- The state that a verification enters with its outcome. -/
def VerifyOutcome.state : VerifyOutcome → VerifyState
  | succeeded => .succeeded
  | failed => .failed
  | cancelled => .cancelled

theorem VerifyOutcome.state_ne_cleaningUp (outcome : VerifyOutcome) : outcome.state ≠ .cleaningUp := by
  cases outcome <;> nofun

/-- **The verdict**: which outcome follows from the end of the attempts, and with which dealings. Only after
a success is anything written. -/
inductive Verdict (files : List Candidate) : AttemptEnd → VerifyOutcome → List Dealing → Prop
  | aborted (message : Text) : Verdict files (.error message) .failed []
  | cancelled : Verdict files (.ok .cancelled) .cancelled []
  | failed {outcome : AttemptOutcome} (cancelled : outcome ≠ .cancelled)
      (success : outcome ≠ .success) : Verdict files (.ok outcome) .failed []
  | succeeded {ds : List Dealing} (written : WrittenBack files (.ok ()) ds) :
      Verdict files (.ok .success) .succeeded ds
  | unwritten {e : FileTree.WriteError} {ds : List Dealing}
      (written : WrittenBack files (.error e) ds) : Verdict files (.ok .success) .failed ds

theorem WrittenBack.isWriteTo {files : List Candidate} {result : Except FileTree.WriteError Unit}
    (h : WrittenBack files result ds) : ∀ d ∈ ds, d.IsWriteTo (files.map (·.target)) := by
  have hback : ∀ (fs : List Candidate), fs ⊆ files → ∀ d ∈ (fs.filter Candidate.changed).map
      Candidate.putBack, d.IsWriteTo (files.map (·.target)) := by
    intro fs hfs d hd
    obtain ⟨f, hf, rfl⟩ := List.mem_map.1 hd
    exact List.mem_map_of_mem (hfs (List.mem_filter.1 hf).1)
  cases h with
  | done => exact hback files (List.Subset.refl files)
  | stopped before f after e changed =>
    intro d hd
    rcases List.mem_append.1 hd with hd | hd
    · exact hback before (List.subset_append_left ..) d hd
    · rw [List.mem_singleton.1 hd]
      exact List.mem_map_of_mem (List.mem_append_right _ List.mem_cons_self)

/-- A verdict writes nothing but targets, and only after a success. -/
theorem Verdict.isWriteTo {files : List Candidate} {ended : AttemptEnd} {outcome : VerifyOutcome}
    (h : Verdict files ended outcome ds) :
    ∀ d ∈ ds, ended = .ok .success ∧ d.IsWriteTo (files.map (·.target)) := by
  cases h with
  | succeeded written | unwritten written => exact fun d hd => ⟨rfl, written.isWriteTo d hd⟩
  | aborted | cancelled | failed => simp

/-- Only after a success does a verification succeed. -/
theorem Verdict.ended_eq_success {files : List Candidate} {ended : AttemptEnd} {outcome : VerifyOutcome}
    (h : Verdict files ended outcome ds) (succeeded : outcome = .succeeded) : ended = .ok .success := by
  cases h with
  | succeeded => rfl
  | aborted | cancelled | failed | unwritten => cases succeeded

/-- All changed files have been written when a verification succeeds. -/
theorem Verdict.eq_putBack {files : List Candidate} {ended : AttemptEnd} {outcome : VerifyOutcome}
    (h : Verdict files ended outcome ds) (succeeded : outcome = .succeeded) :
    ds = (files.filter Candidate.changed).map Candidate.putBack := by
  cases h with
  | succeeded written =>
    cases written
    rfl
  | aborted | cancelled | failed | unwritten => cases succeeded

theorem conclude_spec (ended : AttemptEnd) (r : Run σ) : ∃ outcome message ds,
    Verdict r.files ended outcome ds ∧ Dealings env r.world ds (conclude env ended r).world ∧
      (conclude env ended r).files = r.files ∧
      (conclude env ended r).result =
        { r.result with outcome, message, trace := r.result.trace.record outcome.state } := by
  unfold conclude
  split
  · next m => exact ⟨_, _, [], .aborted m, .nil, rfl, rfl⟩
  · exact ⟨_, _, [], .cancelled, .nil, rfl, rfl⟩
  · obtain ⟨ds, hds, hback, hfiles, hresult⟩ := writeBack_spec env r.files r
    split
    · next e r' h =>
      rw [h] at hds hback hfiles hresult
      exact ⟨.failed, _, ds, .unwritten hback, hds, hfiles, by rw [← hresult]; rfl⟩
    · next r' h =>
      rw [h] at hds hback hfiles hresult
      exact ⟨.succeeded, _, ds, .succeeded hback, hds, hfiles, by rw [← hresult]; rfl⟩
  · next outcome hcancelled hsuccess =>
    exact ⟨_, _, [], .failed (fun he => hcancelled (he ▸ rfl)) (fun he => hsuccess (he ▸ rfl)), .nil,
      rfl, rfl⟩

/-! ## Cleaning up -/

theorem discard_spec (path : Text) (r : Run σ) :
    ∃ result, (Dealing.removed path result).Leads env r.world (discard env path r).2.world ∧
      (discard env path r).1 = (Dealing.removed path result).succeeds ∧
      (discard env path r).2.files = r.files ∧ (discard env path r).2.result = r.result := by
  rw [discard]
  split <;> next h => exact ⟨_, h, rfl, rfl, rfl⟩

/-- **Discarding** removes all the paths, in order; it is complete if no removal fails. -/
theorem discardAll_spec (paths : List Text) (r : Run σ) :
    ∃ ds, Dealings env r.world ds (discardAll env paths r).2.world ∧
      ds.map Dealing.removedPath? = paths.map some ∧
      (discardAll env paths r).1 = ds.all Dealing.succeeds ∧
      (discardAll env paths r).2.files = r.files ∧
      (discardAll env paths r).2.result = r.result := by
  induction paths generalizing r with
  | nil => exact ⟨[], .nil, rfl, rfl, rfl, rfl⟩
  | cons p paths ih =>
    obtain ⟨result, hlead, hsucceeds, hfiles, hresult⟩ := discard_spec env p r
    obtain ⟨ds, hds, hpaths, hall, hfiles', hresult'⟩ := ih (discard env p r).2
    refine ⟨.removed p result :: ds, .cons hlead hds, ?_, ?_, hfiles'.trans hfiles,
      hresult'.trans hresult⟩
    · rw [List.map_cons, hpaths, List.map_cons, Dealing.removedPath?]
    · rw [discardAll, List.all_cons, ← hall, ← hsucceeds]

theorem revert_spec (r : Run σ) :
    ∃ reversion, (Dealing.reverted o.watchDirectory reversion).Leads env r.world
        (revert env o r).world ∧
      (revert env o r).files = r.files ∧
      (revert env o r).result = { r.result with reverted := (revert env o r).result.reverted } := by
  cases h : env.revert o.watchDirectory r.world with
  | mk reversion world =>
    refine ⟨reversion, ?_⟩
    unfold revert
    rw [h]
    cases reversion <;> exact ⟨h, rfl, rfl⟩

/-- What is removed at the end: the candidates and all that came of them. -/
def leftovers (files : List Candidate) : List Text :=
  files.flatMap fun f => [f.path, f.compiled, mapPath f.compiled]

/-- **Cleaning up**: all the leftovers are removed, then there is only waiting, and the very last dealing
is that the watched directory is put back. The result is as before but for what it says about this. -/
structure CleanedUp (env : Surroundings σ) (o : VerifyOptions) (r r' : Run σ)
    (removals waits : List Dealing) (reversion : Reversion) (gone handed : σ) : Prop where
  removals_lead : Dealings env r.world removals gone
  removals_all : removals.map Dealing.removedPath? = (leftovers r.files).map some
  waits_lead : Dealings env gone waits handed
  waits_waiting : ∀ d ∈ waits, d.IsWaiting
  revert_leads : (Dealing.reverted o.watchDirectory reversion).Leads env handed r'.world
  files : r'.files = r.files
  result : r'.result = { r.result with
    trace := r.result.trace.record .cleaningUp
    cleanupComplete := removals.all Dealing.succeeds
    reverted := r'.result.reverted }

theorem cleanUp_spec (r : Run σ) : ∃ removals waits reversion gone handed,
    CleanedUp env o r (cleanUp env o r) removals waits reversion gone handed := by
  obtain ⟨removals, hremovals, hpaths, hall, hfiles, hresult⟩ :=
    discardAll_spec env (leftovers r.files) (r.enter .cleaningUp)
  -- the verification once all is discarded, and once there has been a chance to notice it
  obtain ⟨r₁, hr₁⟩ : ∃ r₁, r₁ = (discardAll env (leftovers r.files) (r.enter .cleaningUp)).2 := ⟨_, rfl⟩
  obtain ⟨r₂, hr₂⟩ : ∃ r₂, r₂ = if r₁.files.isEmpty then r₁ else letWatcherNotice env o r₁ := ⟨_, rfl⟩
  have hquiet : Quiet env r₁ r₂ := by
    rw [hr₂]
    split
    · exact .refl r₁
    · exact letWatcherNotice_quiet env o r₁
  obtain ⟨waits, hwaits, hwaiting⟩ := hquiet.dealings
  obtain ⟨reversion, hrevert, hfiles', hresult'⟩ := revert_spec env o r₂
  have hclean : cleanUp env o r = { revert env o r₂ with
      result := { (revert env o r₂).result with
        cleanupComplete := (discardAll env (leftovers r.files) (r.enter .cleaningUp)).1 } } := by
    rw [hr₂, hr₁]
    rfl
  rw [← hr₁] at hremovals hfiles hresult
  refine ⟨removals, waits, reversion, r₁.world, r₂.world, hremovals, hpaths, hwaits, hwaiting, ?_, ?_, ?_⟩
  · rw [hclean]
    exact hrevert
  · rw [hclean]
    exact hfiles'.trans (hquiet.files.trans hfiles)
  · rw [hclean, hall, hresult', hquiet.result, hresult]
    rfl

end Flatsheet.Repair
