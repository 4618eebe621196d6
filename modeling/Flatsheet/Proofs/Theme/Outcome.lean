import Flatsheet.Proofs.Diagnostic
import Flatsheet.Proofs.Theme.Order

/-!
# `Proofs.Theme.Outcome` — what comes of a migration on a schedule

Two migrations come to the same (`SameOutcome`) if they report the same, leave the same files, and are heard alike under
each number. On complete schedules that is so (`migration_order_independent`), as it is so of the conversion of the
groups (`Proofs.Theme.Order`), and the formatting starts from what the two have in common.

That paths do not go back from a directory that is yet to be made (`Separate`) is not for nothing: if the way to the
resources goes through the directory of the files, what becomes of the first group depends on whether another one has
made that directory already (`pagesTheme_crossed`).
-/

namespace Flatsheet.Theme

open FileTree

variable {σ : Type} {env : Repair.Surroundings σ} {programs : Programs σ}
  {s : Settings} {o : MigrationOptions} {t u : FileTree} {r r' : MigrationRun σ}

/-- **Two migrations come to the same**: they report the same, they leave the same files, and for each group the events
about it and about no group are the same in the same order. -/
structure SameOutcome (env : Repair.Surroundings σ) (r r' : MigrationRun σ) : Prop where
  result : r'.result = r.result
  files : Agree (fun _ => True) (env.tree r.world) (env.tree r'.world)
  events : ∀ n, (r'.events.filter fun e => e.correlation = n ∨ e.correlation = 0) =
    r.events.filter fun e => e.correlation = n ∨ e.correlation = 0

theorem SameOutcome.refl (env : Repair.Surroundings σ) (r : MigrationRun σ) : SameOutcome env r r :=
  ⟨rfl, .refl _ _, fun _ => rfl⟩

/-- Both migrations have the same to say. -/
theorem SameOutcome.note (h : SameOutcome env r r') (severity : Severity) (stage message : Text) :
    SameOutcome env (r.note severity stage message) (r'.note severity stage message) where
  result := h.result
  files := h.files
  events := fun n => by
    unfold MigrationRun.note
    rw [List.filter_append, List.filter_append, h.events n]

theorem SameOutcome.formatted (h : SameOutcome env r r') (status : FormatStatus) :
    SameOutcome env (r.formatted status) (r'.formatted status) where
  result := by
    unfold MigrationRun.formatted
    rw [h.result]
  files := h.files
  events := h.events

theorem SameOutcome.finish (h : SameOutcome env r r') : SameOutcome env r.finish r'.finish := by
  unfold MigrationRun.finish
  rw [h.result]
  exact h.note ..

/-! ## The formatting -/

/-- **Programs to which worlds with the same files are the same.** -/
structure Programs.Impartial (env : Repair.Surroundings σ) (programs : Programs σ) : Prop where
  available : ∀ name w {t u : FileTree}, Agree (fun _ => True) t u →
    programs.isAvailable name (env.setTree u w) = programs.isAvailable name (env.setTree t w)
  result : ∀ command limit w {t u : FileTree}, Agree (fun _ => True) t u →
    (programs.run command limit (env.setTree u w)).1 = (programs.run command limit (env.setTree t w)).1
  files : ∀ command limit w {t u : FileTree}, Agree (fun _ => True) t u →
    Agree (fun _ => True) (env.tree (programs.run command limit (env.setTree t w)).2)
      (env.tree (programs.run command limit (env.setTree u w)).2)

/-- A world without programs. -/
def noPrograms : Programs σ where
  isAvailable := fun _ _ => false
  run := fun _ _ w => (.notStarted "not found".toList, w)

theorem impartial_noPrograms (env : Repair.Surroundings σ) : noPrograms.Impartial env where
  available := fun _ _ _ _ _ => rfl
  result := fun _ _ _ _ _ _ => rfl
  files := fun _ _ w t u h => by
    show Agree _ (env.tree (env.setTree t w)) (env.tree (env.setTree u w))
    rw [env.tree_setTree, env.tree_setTree]
    exact h

/-- **The formatting comes to the same** if the conversion of the groups did. -/
theorem SameOutcome.runFormatter (impartial : programs.Impartial env) (h : SameOutcome env r r') {w : σ}
    (hw : r.world = env.setTree t w) (hw' : r'.world = env.setTree u w) (formatter : Text) :
    SameOutcome env (r.runFormatter programs formatter) (r'.runFormatter programs formatter) := by
  have hfiles := h.files
  rw [hw, hw', env.tree_setTree, env.tree_setTree] at hfiles
  unfold MigrationRun.runFormatter
  dsimp only
  rw [h.result, hw, hw', impartial.available formatter w hfiles]
  split
  · exact h.formatted _
  · split
    · exact (h.formatted _).note ..
    · -- the formatter is run in both worlds
      have hresult := impartial.result (formatter :: "--write".toList :: r.result.written) formatterTimeout w hfiles
      have hafter := impartial.files (formatter :: "--write".toList :: r.result.written) formatterTimeout w hfiles
      generalize programs.run (formatter :: "--write".toList :: r.result.written) formatterTimeout
        (env.setTree t w) = x at hresult hafter ⊢
      generalize programs.run (formatter :: "--write".toList :: r.result.written) formatterTimeout
        (env.setTree u w) = y at hresult hafter ⊢
      obtain ⟨result, world⟩ := x
      obtain ⟨result', world'⟩ := y
      obtain rfl : result' = result := hresult
      have hrun : SameOutcome env { r with world } { r with world := world', events := r'.events } :=
        ⟨rfl, hafter, h.events⟩
      cases result' with
      | notStarted message => exact (hrun.formatted _).note ..
      | timedOut output => exact (hrun.formatted _).note ..
      | exited code output =>
        cases code with
        | zero => exact hrun.formatted _
        | succ code => exact (hrun.formatted _).note ..

/-! ## Migrations -/

/-- All that is heard of the groups under a number. -/
theorem filter_events_of_complete (hsep : Separate s o t)
    (hd : t.isDirectory (styleDirectory o.source) = true) {schedule schedule' : List Job}
    (complete : Complete schedule) (complete' : Complete schedule') (n : Nat) :
    ((Progress.run s o { tree := t } schedule').events.filter fun e => e.correlation = n ∨ e.correlation = 0) =
      (Progress.run s o { tree := t } schedule).events.filter fun e => e.correlation = n ∨ e.correlation = 0 := by
  have hnumber : ∀ schedule, ((Progress.run s o { tree := t } schedule).events.filter
      fun e => e.correlation = n ∨ e.correlation = 0) =
        (Progress.run s o { tree := t } schedule).events.filter (·.correlation = n) := by
    intro schedule
    apply List.filter_congr
    intro e he
    simp [(heard_run s o t schedule).correlation_ne_zero he]
  rw [hnumber, hnumber]
  by_cases hn : ∃ j : Job, j.number = n
  · obtain ⟨j, rfl⟩ := hn
    rw [events_of_complete hsep hd complete, events_of_complete hsep hd complete']
  · have hidle : ∀ j : Job, j.number ≠ n := fun j hj => hn ⟨j, hj⟩
    rw [(heard_run s o t schedule).each, (heard_run s o t schedule).idle n hidle,
      (heard_run s o t schedule').each, (heard_run s o t schedule').idle n hidle]

theorem sameOutcome_migrateOn {world : σ} (hsep : Separate s o (env.tree world))
    (impartial : programs.Impartial env) {schedule schedule' : List Job} (complete : Complete schedule)
    (complete' : Complete schedule') :
    SameOutcome env (migrateOn schedule s o env programs none world)
      (migrateOn schedule' s o env programs none world) := by
  unfold migrateOn
  split
  · exact .refl ..
  · next hd =>
    have hd : (env.tree world).isDirectory (styleDirectory o.source) = true := by simpa using hd
    have htree := tree_of_complete hsep hd complete complete'
    have hevents := filter_events_of_complete hsep hd complete complete'
    dsimp only
    rw [results_of_complete hsep hd complete, results_of_complete hsep hd complete']
    generalize Progress.run s o { tree := env.tree world } schedule = p at htree hevents ⊢
    generalize Progress.run s o { tree := env.tree world } schedule' = p' at htree hevents ⊢
    apply SameOutcome.finish
    -- the conversion of the groups
    generalize hm : numberedGroups.map (fun e => (e.1, e.2, (convertGroup s o e.2 (env.tree world)).1)) = results
    have hrun : SameOutcome env
        { world := env.setTree p.tree world, result := (collectResults results).requireFiles o
          events := p.events ++ breakdowns results }
        { world := env.setTree p'.tree world, result := (collectResults results).requireFiles o
          events := p'.events ++ breakdowns results } := by
      refine ⟨rfl, ?_, fun n => ?_⟩
      · show Agree _ (env.tree (env.setTree p.tree world)) (env.tree (env.setTree p'.tree world))
        rw [env.tree_setTree, env.tree_setTree]
        exact htree
      · show List.filter _ (p'.events ++ _) = List.filter _ (p.events ++ _)
        rw [List.filter_append, List.filter_append, hevents n]
    split
    · exact hrun.runFormatter impartial rfl rfl s.formatter
    · exact hrun

/-- **The order in which the groups of a theme are converted does not matter**: whatever the schedule, a migration
reports the same, leaves the same files, and shows each observer the same under each number. -/
theorem migration_order_independent {world : σ} (hsep : Separate s o (env.tree world))
    (impartial : programs.Impartial env) {schedule schedule' : List Job} (complete : Complete schedule)
    (complete' : Complete schedule') :
    let r := migrateOn schedule s o env programs none world
    let r' := migrateOn schedule' s o env programs none world
    r'.result = r.result ∧ Agree (fun _ => True) (env.tree r.world) (env.tree r'.world) ∧
      ∀ (em : Emitter) (n : Nat),
        (em.takeAll r'.events).observers.map (·.filter (·.correlation = n)) =
          (em.takeAll r.events).observers.map (·.filter (·.correlation = n)) := by
  have h : SameOutcome env (migrateOn schedule s o env programs none world)
      (migrateOn schedule' s o env programs none world) :=
    sameOutcome_migrateOn hsep impartial complete complete'
  refine ⟨h.result, h.files, fun em n => ?_⟩
  rw [Emitter.observers_takeAll, Emitter.observers_takeAll, List.map_map, List.map_map]
  apply List.map_congr_left
  intro seen _
  show (seen ++ _).filter _ = (seen ++ _).filter _
  rw [List.filter_append, List.filter_append, Emitter.shown_congr (h.events n)]

/-- A theme with two pages, with the fragments of a brand. -/
def pagesTheme : FileTree where
  entries :=
    [(["legacy".toList], .directory), (["legacy".toList, "css".toList], .directory),
      (["legacy".toList, "css".toList, "style.scss".toList], .file ".a { b: c; }\n".toList false),
      (["legacy".toList, "css".toList, "vdp.scss".toList], .file ".a { b: c; }\n".toList false),
      (["res".toList], .directory), (["res".toList, "stellantis".toList], .directory),
      (["res".toList, "stellantis".toList, "cookie-banner.scss".toList], .file "x".toList false),
      (["res".toList, "stellantis".toList, "directions-row.scss".toList], .file "y".toList false),
      (["notes".toList], .file "z".toList false)]

/-- What is asked for the pages. -/
def pagesOptions (dest : String) : MigrationOptions :=
  { source := "legacy".toList, dest := dest.toList, brand := "stellantis".toList }

/-- The conversion of the pages on a schedule, with resources from a directory. -/
def pagesRun (schedule : List Job) (resources dest : String) : MigrationRun Machine :=
  migrateOn schedule { resourceDir := resources.toList } (pagesOptions dest) (Repair.machineSurroundings [])
    noPrograms none { tree := pagesTheme }

/-- The schedule of workers who take steps in turns, one worker for each group. -/
def inTurns : List Job := (List.replicate 5 numberedGroups.attach).flatten

/-- The schedule of a single worker who takes the last group first. -/
def lastFirst : List Job := numberedGroups.attach.reverse.flatMap (List.replicate 5)

theorem complete_inTurns : Complete inTurns := by
  unfold Complete
  decide

theorem complete_lastFirst : Complete lastFirst := by
  unfold Complete
  decide

/-- The pages come to the same, whether one worker converts them or there are as many as groups. -/
theorem pagesTheme_order :
    Separate { resourceDir := "res".toList } (pagesOptions "new") pagesTheme ∧
      (pagesRun inTurns "res" "new").result = (pagesRun oneWorker "res" "new").result ∧
      Agree (fun _ => True) (pagesRun oneWorker "res" "new").world.tree (pagesRun inTurns "res" "new").world.tree ∧
      (pagesRun inTurns "res" "new").result.files.map (·.success) = [true, true] ∧
      (pagesRun inTurns "res" "new").world.tree.fileText? "new/sb-inside.scss".toList =
        some ".a { b: c; }\n\nx\n\ny\n".toList := by
  have hsep : Separate { resourceDir := "res".toList } (pagesOptions "new") pagesTheme :=
    ⟨by decide, by decide, by decide, by decide, by decide⟩
  have hworld : Separate { resourceDir := "res".toList } (pagesOptions "new")
      ((Repair.machineSurroundings []).tree { tree := pagesTheme }) := hsep
  obtain ⟨hresult, hfiles, -⟩ := migration_order_independent hworld
    (impartial_noPrograms (Repair.machineSurroundings [])) complete_oneWorker complete_inTurns
  refine ⟨hsep, hresult, hfiles, ?_⟩
  decide +kernel

/-- The directory of the files lies neither in that of the resources nor in that of the style sheets. -/
def PagesOutside (resources dest : String) : Prop :=
  ¬ pagesTheme.place resources.toList <+: pagesTheme.place dest.toList ∧
    ¬ pagesTheme.place (styleDirectory (pagesOptions dest).source) <+: pagesTheme.place dest.toList

instance (resources dest : String) : Decidable (PagesOutside resources dest) :=
  inferInstanceAs (Decidable (_ ∧ _))

/-- **The order can matter although the directories lie apart.**

* `new/../res` leads nowhere until there is a directory `new`. So the first page gets its fragments only if another page
  has been written before.
* `new/../notes` is a file. That it is in the way is said in other words by the page that makes `new`.
* What stands behind a NUL does not count. So the fragments of the first page can be another page. -/
theorem pagesTheme_crossed :
    Complete oneWorker ∧ Complete lastFirst ∧
      (PagesOutside "new/../res" "new" ∧
        (pagesRun oneWorker "new/../res" "new").result.files.map (fun f => (f.success, f.fragments.length)) =
          [(false, 0), (true, 0)] ∧
        (pagesRun lastFirst "new/../res" "new").result.files.map (fun f => (f.success, f.fragments.length)) =
          [(true, 2), (true, 0)] ∧
        (pagesRun oneWorker "new/../res" "new").world.tree.fileText? "new/sb-inside.scss".toList = none ∧
        (pagesRun lastFirst "new/../res" "new").world.tree.fileText? "new/sb-inside.scss".toList =
          some ".a { b: c; }\n\nx\n\ny\n".toList) ∧
      (PagesOutside "res" "new/../notes" ∧
        (pagesRun oneWorker "res" "new/../notes").result.files.map (·.errors) =
          [["cannot create new/../notes: File exists".toList],
            ["cannot create new/../notes: Not a directory".toList]] ∧
        (pagesRun lastFirst "res" "new/../notes").result.files.map (·.errors) =
          [["cannot create new/../notes: Not a directory".toList],
            ["cannot create new/../notes: File exists".toList]]) ∧
      (PagesOutside "new/sb-vdp.scss\x00" "new" ∧
        (pagesRun oneWorker "new/sb-vdp.scss\x00" "new").result.files.map (·.success) = [false, true] ∧
        (pagesRun lastFirst "new/sb-vdp.scss\x00" "new").result.files.map (·.success) = [true, true]) := by
  refine ⟨complete_oneWorker, complete_lastFirst, ?_⟩
  decide +kernel

end Flatsheet.Theme
