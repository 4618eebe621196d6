import Flatsheet.Proofs.Repair.Targets
import Mathlib.Algebra.GroupWithZero.Nat

/-!
# `Proofs.Repair.Report` — the report is a complete and faithful edit script

Whatever repairs are called for, the report leads from the lines of the files to the repaired ones, so that
a reader who follows it sees all that has been done (`EditScript`). Of a verification that has succeeded
this means that the report leads from the old texts of the targets to those that are written
(`Course.replays_written`), and which the targets then hold if they are left alone (`Course.replays_held`).
-/

namespace Flatsheet.Repair

open Text

variable {σ : Type}

/-! ## Lines -/

/-- **The answers to calls for repairs are an edit script** that leads from the lines of files to the
lines of the files as they are now. -/
structure EditScript (files : List Candidate) (result : List Candidate × List (List Alteration)) :
    Prop where
  /-- The files are the same files. -/
  identity : result.1.map Candidate.identity = files.map Candidate.identity
  /-- Replaying the report never fails, and it gives the present lines. -/
  replay : Report.replay? result.2.flatten (files.map Candidate.named) =
    some (result.1.map Candidate.named)
  /-- The numbers of changes that the calls answer add up to the length of the report. -/
  changes : (result.2.map List.length).sum = result.2.flatten.length
  /-- There is a description for each entry of the report. -/
  descriptions : (result.2.flatMap (·.map Alteration.describe)).length = result.2.flatten.length
  /-- A file is dirty if it has an entry, and only then. -/
  dirty : ∀ c ∈ result.1, c.dirty = true ↔ ∃ a ∈ result.2.flatten, a.file = c.name
  /-- No entry replaces a line that is blank or starts with a comment. -/
  spared : ∀ a ∈ result.2.flatten, a.edit.former ≠ [] → isProtected a.edit.former = false

theorem editScript_answers {files : List Candidate} (fresh : ∀ c ∈ files, c.dirty = false)
    (names : (files.map Candidate.name).Nodup) (calls : List RepairCall) :
    EditScript files (answers calls files) := by
  have hscript := (Scripted.refl fresh).answers names calls
  rw [List.nil_append] at hscript
  exact {
    identity := hscript.identity
    replay := hscript.replay
    changes := List.length_flatten.symm
    descriptions := by
      rw [List.length_flatMap, List.length_flatten]
      simp only [List.length_map]
    dirty := hscript.dirty
    spared := hscript.spared }

/-! ## Texts -/

/-- **The report leads from the texts that targets have in a tree to new ones**, and with a target, its old
text and its new text something is the case. -/
def ReplaysTexts (report : Report) (t : FileTree) (targets : List Text)
    (Becomes : Text → Text → Text → Prop) : Prop :=
  ∃ before after : NamedLines, report.replay? before = some after ∧
    before.map Prod.fst = targets.map Path.fileName ∧
    after.map Prod.fst = targets.map Path.fileName ∧
    ∀ target ∈ targets, ∃ old new, t.read target = .ok old ∧
      (Path.fileName target, lines old) ∈ before ∧ (Path.fileName target, new) ∈ after ∧
      Becomes target old (unlines new)

/-- A new text is written, unless it is the old one. -/
def Writes (ds : List Dealing) (target old new : Text) : Prop :=
  new ≠ old → .wrote target new (.ok ()) ∈ ds

/-- A target of one tree has its new text in another. -/
def Has (t t' : FileTree) (target _old new : Text) : Prop :=
  t'.contentAt? (t.place target) = some new

namespace Course

variable {env : Surroundings σ} {o : VerifyOptions} {w world : σ} {files : List Candidate}
  {result : Verification} {targets : List Text}

/-- The report of a course leads from the texts of the targets to the contents of the repaired
candidates. -/
theorem replays_texts (c : Course env o w files world result)
    (h : stage o (env.tree w) targets = .ok files) (names : (targets.map Path.fileName).Nodup)
    {Becomes : Text → Text → Text → Prop}
    (becomes : ∀ g ∈ c.repaired, Becomes g.target g.former g.content) :
    ReplaysTexts result.report (env.tree w) targets Becomes := by
  have hfresh := fresh_of_stage h
  have htargets : files.map (·.target) = targets := (stage_spec h).1
  have hnames := names_of_stage h
  have hscript := (Scripted.refl fun f hf => (hfresh f hf).1).repaired (hnames ▸ names) c.repairs
  refine ⟨files.map Candidate.named, c.repaired.map Candidate.named, hscript.replay, ?_, ?_,
    fun target ht => ?_⟩
  · rw [List.map_map]
    exact hnames
  · rw [List.map_map]
    exact (map_eq_of_identity (fun i => Path.fileName i.1) c.identity).trans hnames
  · obtain ⟨f, hf, rfl⟩ := List.mem_map.1 (htargets ▸ ht)
    have hid : f.identity ∈ c.repaired.map Candidate.identity := c.identity ▸ List.mem_map_of_mem hf
    obtain ⟨g, hg, hgf⟩ := List.mem_map.1 hid
    have htarget : g.target = f.target := congrArg (·.1) hgf
    have hformer : g.former = f.former := congrArg (·.2.2.2) hgf
    refine ⟨f.former, g.lines, (fits_of_stage h f hf).1, ?_, ?_, ?_⟩
    · rw [← (hfresh f hf).2]
      exact List.mem_map_of_mem hf
    · have hmem := List.mem_map_of_mem (f := Candidate.named) hg
      rwa [Candidate.named, Candidate.name, htarget] at hmem
    · rw [← htarget, ← hformer]
      exact becomes g hg

/-- **After a success the new texts have been written**, whatever else happens to the targets. -/
theorem replays_written (c : Course env o w files world result)
    (h : stage o (env.tree w) targets = .ok files) (names : (targets.map Path.fileName).Nodup)
    (succeeded : result.outcome = .succeeded) :
    ReplaysTexts result.report (env.tree w) targets (Writes c.history) := by
  have hnames : (files.map Candidate.name).Nodup := names_of_stage h ▸ names
  -- a text that is not the old one comes from a changed candidate, and all of these are written
  refine c.replays_texts h names fun g hg hne => ?_
  have hchanged : g.changed = true := by
    rw [← Bool.not_eq_false]
    exact mt (content_of_unchanged (fresh_of_stage h) hnames c.repairs hg) hne
  have hback : g.putBack ∈ c.back := by
    rw [c.verdict.eq_putBack succeeded]
    exact List.mem_map_of_mem (List.mem_filter.2 ⟨hg, hchanged⟩)
  exact List.mem_append_right _ (List.mem_append_left _ hback)

/-- **After a success the targets have their new texts**, if they are left alone. -/
theorem replays_held (c : Course env o w files world result)
    (h : stage o (env.tree w) targets = .ok files) (names : (targets.map Path.fileName).Nodup)
    (apart : Apart o (env.tree w) targets) (succeeded : result.outcome = .succeeded) {t' : FileTree}
    (settled : Settled o (env.tree w) targets c.history result t') :
    ReplaysTexts result.report (env.tree w) targets (Has (env.tree w) t') := by
  have hrepaired := (Prepared.of_stage h names apart).congr c.identity
  have htargets : c.repaired.map (·.target) = targets :=
    (map_eq_of_identity (·.1) c.identity).trans (stage_spec h).1
  refine c.replays_texts h names fun g hg => ?_
  obtain ⟨text, hlast, hcontent⟩ :=
    settled.succeeded succeeded g.target (htargets ▸ List.mem_map_of_mem hg)
  have hown := c.lastWritten_history hrepaired (c.verdict.ended_eq_success succeeded) hg
  rw [(hrepaired.fits g hg).2.1, hlast] at hown
  rw [Has, hcontent, hown]

end Course

/-- **The report is a complete and faithful edit script**: for the files after any calls for repairs, and
for the targets, with different names, of any verification that has succeeded. What it leads to there is
what has been written; and it is also what the targets hold, if they are apart from all the files beside
them and the surroundings leave them alone until the watched directory is put back. -/
theorem report_replays :
    (∀ (files : List Candidate) (calls : List RepairCall), (∀ c ∈ files, c.dirty = false) →
      (files.map Candidate.name).Nodup → EditScript files (answers calls files)) ∧
    ∀ (env : Surroundings σ) (o : VerifyOptions) (targets baseline : List Text) (w : σ),
      (targets.map Path.fileName).Nodup →
      (verify env o targets baseline w).result.outcome = .succeeded →
      ∃ ds handed reversion, Dealings env w ds handed ∧
        (Dealing.reverted o.watchDirectory reversion).Leads env handed
          (verify env o targets baseline w).world ∧
        ReplaysTexts (verify env o targets baseline w).result.report (env.tree w) targets (Writes ds) ∧
        (Apart o (env.tree w) targets → Aloof env (targets.map (env.tree w).place) →
          ReplaysTexts (verify env o targets baseline w).result.report (env.tree w) targets
              (Has (env.tree w) (env.tree handed)) ∧
            (RevertsAloof env (targets.map (env.tree w).place) →
              ReplaysTexts (verify env o targets baseline w).result.report (env.tree w) targets
                (Has (env.tree w) (env.tree (verify env o targets baseline w).world)))) := by
  refine ⟨fun files calls fresh names => editScript_answers fresh names calls,
    fun env o targets baseline w names succeeded => ?_⟩
  cases h : stage o (env.tree w) targets with
  | error e =>
    rw [(verify_unstaged env baseline h).2] at succeeded
    cases succeeded
  | ok files =>
    -- the history of the verification up to the reversion has all the writes
    obtain ⟨c⟩ := verify_course env baseline h
    refine ⟨c.history, c.handed, c.reversion, c.history_leads, c.revert_leads,
      c.replays_written h names succeeded, fun apart aloof => ?_⟩
    have hsettled := c.settled h names apart aloof
    refine ⟨c.replays_held h names apart succeeded hsettled, fun reverts => ?_⟩
    exact c.replays_held h names apart succeeded (hsettled.congr fun target ht =>
      c.reverted_at? reverts (List.mem_map_of_mem ht))

/-- A variable that is taken out of use by the aggressive repair, once in a file and once in a
verification. -/
theorem report_of_variable :
    let c : Candidate := { target := "a.scss".toList, path := [], compiled := [],
                           lines := ["$a: b;".toList] }
    let t : FileTree := { entries := [(["a.scss".toList], .file "$a: b;".toList false)] }
    let o : VerifyOptions :=
      { watchDirectory := "w".toList, candidatePrefix := "sb-".toList, maxRetries := 0 }
    let env := Surroundings.sleeping fun t => t.put ["w".toList, "sb-a.css".toList] (.file [] false)
    let r := verify env o ["a.scss".toList] [] (t, 0)
    EditScript [c] (answers [.aggressive] [c]) ∧ (answers [.aggressive] [c]).2.flatten ≠ [] ∧
      ReplaysTexts r.result.report t ["a.scss".toList] (Has t (env.tree r.world)) ∧
      r.result.report ≠ [] := by
  intro c t o env r
  have aloof : Aloof env (["a.scss".toList].map t.place) :=
    aloof_sleeping_put (by simp) (by decide)
  obtain ⟨hanswers, hverify⟩ := report_replays (σ := FileTree × Nat)
  obtain ⟨_, _, -, -, -, -, htexts⟩ :=
    hverify env o ["a.scss".toList] [] (t, 0) (by decide) (by decide)
  exact ⟨hanswers [c] [.aggressive] (by decide) (by decide), by decide,
    (htexts (by unfold Apart; decide) aloof).2 fun _ _ _ _ => rfl, by decide⟩

end Flatsheet.Repair
