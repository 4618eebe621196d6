import Flatsheet.Proofs.Theme.Report
import Mathlib.Data.List.Induction

/-!
# `Proofs.Theme.Schedule` — the groups of a theme converted side by side

Workers convert the groups of a theme at the same time. The conversion of one group is a task of five steps
(`Task.step`): it reads and processes the style sheets, reads the fragments, makes the directory of its file, writes the
file under its temporary name, and renames it. A schedule says in which order the tasks take their steps; it is complete
if each task gets to its end (`Complete`). `migrateOn` is a migration that converts the groups on a schedule.

Five steps in a row are the conversion of the group (`five_steps`). So a single worker, who takes the groups one after
the other, does what `migrate` does (`migrateOn_oneWorker`).
-/

namespace Flatsheet.Theme

open Text FileTree Flatsheet.Path

variable {s : Settings} {o : MigrationOptions} {g : SourceGroup} {t : FileTree}

/-! ## The steps of a task -/

/-- How far the conversion of a group has come. -/
inductive Task
  | waiting
  /-- The style sheets have been read and processed; see `Reading.processed`. -/
  | processed (f : FileSummary) (p : Processed)
  /-- This content is to be written; see `Draft.ready`. -/
  | drafted (f : FileSummary) (content : Text) (flawless : Bool)
  /-- The directory of the file is there. -/
  | housed (f : FileSummary) (content : Text) (flawless : Bool)
  /-- The content is in the file of the temporary name. -/
  | stored (f : FileSummary) (content : Text) (flawless : Bool)
  | done (result : Except Text (Option FileSummary))

/-- The end of a task, with what came of writing its file. -/
def Task.finish (g : SourceGroup) (f : FileSummary) (content : Text) (flawless : Bool)
    (verdict : Except WriteError Unit) (t : FileTree) : Task × List Note × FileTree :=
  (.done (.ok (some (f.afterWriting content flawless verdict))), [f.writingNote g.name verdict], t)

/-- One step of a task, with what it says. -/
def Task.step (s : Settings) (o : MigrationOptions) (g : SourceGroup) :
    Task → FileTree → Task × List Note × FileTree
  | .waiting, t =>
    match reading s o g t with
    | .settled (result, notes) => (.done result, notes, t)
    | .processed f p notes => (.processed f p, notes, t)
  | .processed f p, t =>
    match draftProcessed s o g f p [] t with
    | .settled (result, notes) => (.done result, notes, t)
    | .ready f content flawless notes => (.drafted f content flawless, notes, t)
  | .drafted f content flawless, t =>
    match t.withParent f.output with
    | (.error cause, t) => finish g f content flawless (.error (.cannotMake (parent f.output) cause)) t
    | (.ok (), t) => (.housed f content flawless, [], t)
  | .housed f content flawless, t =>
    match t.create (temporaryName f.output) content with
    | .error _ => finish g f content flawless (.error (.cannotOpen (temporaryName f.output))) t
    | .ok t => (.stored f content flawless, [], t)
  | .stored f content flawless, t =>
    match t.rename (temporaryName f.output) f.output with
    | .error cause =>
      finish g f content flawless (.error (.cannotRename (temporaryName f.output) f.output cause))
        (t.removed (temporaryName f.output))
    | .ok t => finish g f content flawless (.ok ()) t
  | .done result, t => (.done result, [], t)

/-- A task with what it has said so far. -/
structure Work where
  task : Task := .waiting
  said : List Note := []

/-- A step of a task that has the tree for itself. -/
def soloStep (s : Settings) (o : MigrationOptions) (g : SourceGroup) (w : Work × FileTree) : Work × FileTree :=
  (⟨(w.1.task.step s o g w.2).1, w.1.said ++ (w.1.task.step s o g w.2).2.1⟩, (w.1.task.step s o g w.2).2.2)

/-- Steps of a task that has the tree for itself. -/
def solo (s : Settings) (o : MigrationOptions) (g : SourceGroup) (w : Work × FileTree) : Nat → Work × FileTree
  | 0 => w
  | k + 1 => soloStep s o g (solo s o g w k)

theorem soloStep_done (result : Except Text (Option FileSummary)) (said : List Note) (t : FileTree) :
    soloStep s o g (⟨.done result, said⟩, t) = (⟨.done result, said⟩, t) := by
  simp [soloStep, Task.step]

/-- Three steps of a task whose file is to be written write it. -/
theorem three_steps (f : FileSummary) (content : Text) (flawless : Bool) (said : List Note) (t : FileTree) :
    solo s o g (⟨.drafted f content flawless, said⟩, t) 3 =
      (⟨.done (.ok (some (f.afterWriting content flawless (t.writeFile f.output content).1))),
        said ++ [f.writingNote g.name (t.writeFile f.output content).1]⟩, (t.writeFile f.output content).2) := by
  -- each of the three steps can fail, and writing at once fails there too
  cases hparent : t.withParent f.output with
  | mk verdict u =>
    cases verdict with
    | error cause =>
      have hwrite : t.writeFile f.output content = (.error (.cannotMake (parent f.output) cause), u) := by
        simp [writeFile, writeFileOn, hparent]
      rw [hwrite]
      simp [solo, soloStep, Task.step, Task.finish, hparent]
    | ok =>
      cases hcreate : u.create (temporaryName f.output) content with
      | error e =>
        have hwrite : t.writeFile f.output content = (.error (.cannotOpen (temporaryName f.output)), u) := by
          simp [writeFile, writeFileOn, Storage.arrived, hparent, hcreate]
        rw [hwrite]
        simp [solo, soloStep, Task.step, Task.finish, hparent, hcreate]
      | ok v =>
        cases hrename : v.rename (temporaryName f.output) f.output with
        | error e =>
          have hwrite : t.writeFile f.output content =
              (.error (.cannotRename (temporaryName f.output) f.output e),
                v.removed (temporaryName f.output)) := by
            simp [writeFile, writeFileOn, Storage.arrived, hparent, hcreate, hrename]
          rw [hwrite]
          simp [solo, soloStep, Task.step, Task.finish, hparent, hcreate, hrename]
        | ok w =>
          have hwrite : t.writeFile f.output content = (.ok (), w) := by
            simp [writeFile, writeFileOn, Storage.arrived, hparent, hcreate, hrename]
          rw [hwrite]
          simp [solo, soloStep, Task.step, Task.finish, hparent, hcreate, hrename]

theorem solo_succ (w : Work × FileTree) (k : Nat) : solo s o g w (k + 1) = solo s o g (soloStep s o g w) k := by
  induction k with
  | zero => rfl
  | succ k ih =>
    show soloStep s o g (solo s o g w (k + 1)) = soloStep s o g (solo s o g (soloStep s o g w) k)
    rw [ih]

/-- A task that is done stays as it is. -/
theorem solo_done (result : Except Text (Option FileSummary)) (said : List Note) (t : FileTree) (k : Nat) :
    solo s o g (⟨.done result, said⟩, t) k = (⟨.done result, said⟩, t) := by
  induction k with
  | zero => rfl
  | succ k ih => rw [solo, ih, soloStep_done]

/-- A draft with something said before. -/
def Draft.after (notes : List Note) : Draft → Draft
  | .settled (result, more) => .settled (result, notes ++ more)
  | .ready f content flawless more => .ready f content flawless (notes ++ more)

theorem draftProcessed_after (s : Settings) (o : MigrationOptions) (g : SourceGroup) (f : FileSummary)
    (p : Processed) (notes : List Note) (t : FileTree) :
    draftProcessed s o g f p notes t = (draftProcessed s o g f p [] t).after notes := by
  unfold draftProcessed
  split
  · simp [Draft.after]
  · dsimp only
    split
    · simp [Draft.after]
    · simp [Draft.after]

/-- **Five steps are the conversion of the group.** -/
theorem five_steps (said : List Note) (t : FileTree) :
    solo s o g (⟨.waiting, said⟩, t) 5 =
      (⟨.done (convertGroup s o g t).1.1, said ++ (convertGroup s o g t).1.2⟩, (convertGroup s o g t).2) := by
  rw [convertGroup_eq, solo_succ]
  unfold draft
  cases hreading : reading s o g t with
  | settled result =>
    have hstep : soloStep s o g (⟨.waiting, said⟩, t) = (⟨.done result.1, said ++ result.2⟩, t) := by
      simp [soloStep, Task.step, hreading]
    rw [hstep, solo_done]
    rfl
  | processed f p notes =>
    have hstep : soloStep s o g (⟨.waiting, said⟩, t) = (⟨.processed f p, said ++ notes⟩, t) := by
      simp [soloStep, Task.step, hreading]
    dsimp only
    rw [hstep, solo_succ, draftProcessed_after]
    cases hdraft : draftProcessed s o g f p [] t with
    | settled result =>
      have hnext : soloStep s o g (⟨.processed f p, said ++ notes⟩, t) =
          (⟨.done result.1, said ++ notes ++ result.2⟩, t) := by
        simp [soloStep, Task.step, hdraft]
      rw [hnext, solo_done, List.append_assoc]
      rfl
    | ready f' content flawless more =>
      have hnext : soloStep s o g (⟨.processed f p, said ++ notes⟩, t) =
          (⟨.drafted f' content flawless, said ++ notes ++ more⟩, t) := by
        simp [soloStep, Task.step, hdraft]
      rw [hnext, three_steps, List.append_assoc, List.append_assoc, ← List.append_assoc notes]
      rfl

/-- **A task that has taken five steps or more is done**, and its group is converted. -/
theorem solo_of_five_le {k : Nat} (hk : 5 ≤ k) (t : FileTree) :
    solo s o g ({}, t) k =
      (⟨.done (convertGroup s o g t).1.1, (convertGroup s o g t).1.2⟩, (convertGroup s o g t).2) := by
  induction hk with
  | refl => exact five_steps [] t
  | step _ ih => rw [solo, ih, soloStep_done]

/-! ## Schedules -/

/-- A group with its number. -/
abbrev Job := {e : Nat × SourceGroup // e ∈ numberedGroups}

/-- The number of the group. -/
abbrev Job.number (j : Job) : Nat := j.1.1

/-- The group. -/
abbrev Job.group (j : Job) : SourceGroup := j.1.2

/-- A theme whose groups are being converted. -/
@[ext]
structure Progress where
  /-- The tasks, by the numbers of their groups. -/
  works : Nat → Work := fun _ => {}
  events : List Event := []
  tree : FileTree

namespace Progress

/-- A task takes a step. -/
def advance (s : Settings) (o : MigrationOptions) (p : Progress) (j : Job) : Progress :=
  let r := (p.works j.number).task.step s o j.group p.tree
  { works := fun n => if n = j.number then ⟨r.1, (p.works n).said ++ r.2.1⟩ else p.works n
    events := p.events ++ r.2.1.map (⟨·, j.number⟩)
    tree := r.2.2 }

/-- The tasks take steps in the order of a schedule. -/
def run (s : Settings) (o : MigrationOptions) (p : Progress) (schedule : List Job) : Progress :=
  schedule.foldl (advance s o) p

/-- What has come of a task; nothing yet if it is not done. -/
def result (w : Work) : GroupResult :=
  match w.task with
  | .done result => (result, w.said)
  | _ => (.ok none, w.said)

/-- The results of the groups, in the order of their numbers. -/
def results (p : Progress) : List (Nat × SourceGroup × GroupResult) :=
  numberedGroups.map fun e => (e.1, e.2, result (p.works e.1))

end Progress

/-- A schedule is complete if each task takes all its steps on it. -/
def Complete (schedule : List Job) : Prop := ∀ j ∈ numberedGroups.attach, 5 ≤ schedule.count j

/-- The schedule of a single worker, who takes the groups one after the other. -/
def oneWorker : List Job := numberedGroups.attach.flatMap (List.replicate 5)

theorem complete_oneWorker : Complete oneWorker := by
  unfold Complete
  decide

/-- The events about groups that broke down. -/
def breakdowns (results : List (Nat × SourceGroup × GroupResult)) : List Event :=
  results.filterMap fun (_, g, r) => match r.1 with
    | .error message => some ⟨migrationNote .error g.name message, 0⟩
    | .ok _ => none

variable {σ : Type}

/-- A migration whose groups are converted on a schedule. The rest of it is as in `migrate`. -/
def migrateOn (schedule : List Job) (s : Settings) (o : MigrationOptions) (env : Repair.Surroundings σ)
    (programs : Programs σ) (verifyOptions : Option Repair.VerifyOptions) (world : σ) : MigrationRun σ :=
  if !(env.tree world).isDirectory (styleDirectory o.source) then
    let message := "no css directory in ".toList ++ o.source
    ({ world, result := { errors := [message] } } : MigrationRun σ).note .error "start".toList message
  else
    let p := Progress.run s o { tree := env.tree world } schedule
    let r : MigrationRun σ :=
      { world := env.setTree p.tree world, result := (collectResults p.results).requireFiles o
        events := p.events ++ breakdowns p.results }
    let r := if o.runFormatter then r.runFormatter programs s.formatter else r
    let r := match verifyOptions with
      | some v => if r.result.written.isEmpty then r else r.runVerification env v
      | none => r
    r.finish

theorem run_append (p : Progress) (schedule schedule' : List Job) :
    p.run s o (schedule ++ schedule') = (p.run s o schedule).run s o schedule' := List.foldl_append

/-! ## What is heard -/

theorem number_ne_zero : ∀ e ∈ numberedGroups, e.1 ≠ 0 := by decide

/-- **Under the number of a group is heard what its task has said**, in that order, and nothing under another
number. -/
structure Heard (p : Progress) : Prop where
  each : ∀ n, p.events.filter (·.correlation = n) = (p.works n).said.map (⟨·, n⟩)
  idle : ∀ n, (∀ j : Job, j.number ≠ n) → p.works n = {}

theorem Heard.advance {p : Progress} (h : Heard p) (j : Job) : Heard (p.advance s o j) where
  each := fun n => by
    by_cases hn : n = j.number
    · subst hn
      simp [Progress.advance, h.each, List.filter_map, Function.comp_def]
    · simp [Progress.advance, h.each, List.filter_map, Function.comp_def, hn, Ne.symm hn]
  idle := fun n hn => (if_neg (hn j).symm).trans (h.idle n hn)

theorem heard_run (s : Settings) (o : MigrationOptions) (t : FileTree) (schedule : List Job) :
    Heard (Progress.run s o { tree := t } schedule) := by
  induction schedule using List.reverseRecOn with
  | nil => exact ⟨fun _ => rfl, fun _ _ => rfl⟩
  | append_singleton schedule j ih =>
    rw [run_append]
    exact ih.advance j

/-- All that is heard belongs to a group. -/
theorem Heard.correlation_ne_zero {p : Progress} (h : Heard p) {e : Event} (he : e ∈ p.events) :
    e.correlation ≠ 0 := by
  intro hzero
  have hmem : e ∈ p.events.filter (·.correlation = 0) := List.mem_filter.2 ⟨he, by simp [hzero]⟩
  rw [h.each, h.idle 0 fun j => number_ne_zero j.1 j.2] at hmem
  cases hmem

/-! ## A single worker -/

/-- **A task that takes steps in a row has the tree for itself.** -/
theorem run_replicate (p : Progress) (j : Job) (k : Nat) :
    ∃ new,
      (solo s o j.group (p.works j.number, p.tree) k).1.said = (p.works j.number).said ++ new ∧
      p.run s o (List.replicate k j) =
        { works := fun n =>
            if n = j.number then (solo s o j.group (p.works j.number, p.tree) k).1 else p.works n
          events := p.events ++ new.map (⟨·, j.number⟩)
          tree := (solo s o j.group (p.works j.number, p.tree) k).2 } := by
  induction k with
  | zero =>
    refine ⟨[], by simp [solo], Progress.ext (funext fun n => ?_) (by simp [Progress.run]) rfl⟩
    by_cases hn : n = j.number
    · simp [Progress.run, solo, hn]
    · simp [Progress.run, hn]
  | succ k ih =>
    obtain ⟨new, hsaid, hrun⟩ := ih
    rw [List.replicate_succ', run_append, hrun]
    generalize hw : solo s o j.group (p.works j.number, p.tree) k = w at hsaid ⊢
    obtain ⟨⟨task, said⟩, tree⟩ := w
    dsimp only at hsaid
    subst hsaid
    -- the last step is taken from where the steps before it have led
    have hnext : solo s o j.group (p.works j.number, p.tree) (k + 1) =
        soloStep s o j.group (⟨task, (p.works j.number).said ++ new⟩, tree) := by
      rw [solo, hw]
    rw [hnext]
    refine ⟨new ++ (task.step s o j.group tree).2.1, by simp [soloStep], ?_⟩
    refine Progress.ext (funext fun n => ?_) ?_ ?_
    · by_cases hn : n = j.number
      · simp [Progress.run, Progress.advance, soloStep, hn]
      · simp [Progress.run, Progress.advance, hn]
    · simp [Progress.run, Progress.advance]
    · simp [Progress.run, Progress.advance, soloStep]

/-- **A task that takes all its steps in a row converts its group.** -/
theorem run_block (p : Progress) (j : Job) (hwaiting : p.works j.number = {}) :
    p.run s o (List.replicate 5 j) =
      { works := fun n =>
          if n = j.number then
            ⟨.done (convertGroup s o j.group p.tree).1.1, (convertGroup s o j.group p.tree).1.2⟩
          else p.works n
        events := p.events ++ (convertGroup s o j.group p.tree).1.2.map (⟨·, j.number⟩)
        tree := (convertGroup s o j.group p.tree).2 } := by
  obtain ⟨new, hsaid, hrun⟩ := run_replicate (s := s) (o := o) p j 5
  rw [hwaiting] at hsaid hrun
  rw [five_steps] at hsaid hrun
  simp only [List.nil_append] at hsaid hrun
  rw [hrun, ← hsaid]

/-- **Tasks that take their steps one after the other convert their groups one after the other.** -/
theorem run_blocks (js : List Job) (p : Progress) (hapart : (js.map Job.number).Nodup)
    (hwaiting : ∀ j ∈ js, p.works j.number = {}) :
    (p.run s o (js.flatMap (List.replicate 5))).tree = (convertGroups s o (js.map (·.1)) p.tree).2 ∧
      (p.run s o (js.flatMap (List.replicate 5))).events = p.events ++
        (convertGroups s o (js.map (·.1)) p.tree).1.flatMap (fun (n, _, r) => r.2.map (⟨·, n⟩)) ∧
      (∀ n, n ∉ js.map Job.number → (p.run s o (js.flatMap (List.replicate 5))).works n = p.works n) ∧
      ∀ r ∈ (convertGroups s o (js.map (·.1)) p.tree).1,
        (p.run s o (js.flatMap (List.replicate 5))).works r.1 = ⟨.done r.2.2.1, r.2.2.2⟩ := by
  induction js generalizing p with
  | nil => simp [Progress.run, convertGroups]
  | cons j js ih =>
    rw [List.map_cons, List.nodup_cons] at hapart
    have hj := hwaiting j List.mem_cons_self
    obtain ⟨⟨n, g⟩, hmem⟩ := j
    rw [List.flatMap_cons, run_append, run_block p _ hj, List.map_cons]
    unfold convertGroups
    dsimp only [Job.number, Job.group] at hapart ⊢
    generalize hp₁ : ({ works := _, events := _, tree := _ } : Progress) = p₁
    -- the steps of the first task leave the works of the others alone
    have hworks : ∀ k, k ≠ n → p₁.works k = p.works k := by
      intro k hk
      rw [← hp₁]
      exact if_neg hk
    have hwaiting₁ : ∀ j ∈ js, p₁.works j.number = {} := by
      intro j hjs
      rw [hworks]
      · exact hwaiting j (List.mem_cons_of_mem _ hjs)
      · intro hn
        exact hapart.1 (List.mem_map.2 ⟨j, hjs, hn⟩)
    obtain ⟨htree, hevents, hothers, hdone⟩ := ih p₁ hapart.2 hwaiting₁
    have htree₁ : p₁.tree = (convertGroup s o g p.tree).2 := by rw [← hp₁]
    rw [htree₁] at htree hevents hdone
    refine ⟨htree, ?_, ?_, ?_⟩
    · rw [hevents, ← hp₁, List.flatMap_cons, List.append_assoc]
    · intro k hk
      rw [List.map_cons, List.mem_cons, not_or] at hk
      rw [hothers k hk.2, hworks k hk.1]
    · intro r hr
      rcases List.mem_cons.1 hr with rfl | hr
      · -- the tasks of the rest leave this one alone
        rw [hothers _ hapart.1, ← hp₁]
        exact if_pos rfl
      · exact hdone r hr

theorem map_val_attach : numberedGroups.attach.map (·.1) = numberedGroups := List.attach_map_subtype_val _

/-- **A single worker converts the groups of a theme one after the other.** -/
theorem run_oneWorker (s : Settings) (o : MigrationOptions) (t : FileTree) :
    (Progress.run s o { tree := t } oneWorker).results = (convertGroups s o numberedGroups t).1 ∧
      (Progress.run s o { tree := t } oneWorker).events =
        (convertGroups s o numberedGroups t).1.flatMap (fun (n, _, r) => r.2.map (⟨·, n⟩)) ∧
      (Progress.run s o { tree := t } oneWorker).tree = (convertGroups s o numberedGroups t).2 := by
  obtain ⟨htree, hevents, -, hdone⟩ := run_blocks (s := s) (o := o) numberedGroups.attach { tree := t }
    (by decide) (fun _ _ => rfl)
  rw [map_val_attach] at htree hevents hdone
  refine ⟨?_, hevents, htree⟩
  have hnames := convertGroups_names s o numberedGroups t
  unfold Progress.results
  conv_lhs => rw [← hnames]
  rw [List.map_map]
  refine (List.map_congr_left fun r hr => ?_).trans (List.map_id _)
  show (r.1, r.2.1, Progress.result ((Progress.run s o { tree := t } oneWorker).works r.1)) = r
  unfold oneWorker
  rw [hdone r hr]
  rfl

/-- **A single worker does what a migration does.** -/
theorem migrateOn_oneWorker (s : Settings) (o : MigrationOptions) (env : Repair.Surroundings σ)
    (programs : Programs σ) (verifyOptions : Option Repair.VerifyOptions) (world : σ) :
    migrateOn oneWorker s o env programs verifyOptions world =
      migrate s o env programs verifyOptions world := by
  obtain ⟨hresults, hevents, htree⟩ := run_oneWorker s o (env.tree world)
  unfold migrateOn migrate
  dsimp only
  rw [hresults, hevents, htree]
  rfl

end Flatsheet.Theme
