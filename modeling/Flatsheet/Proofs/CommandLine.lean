import Flatsheet.CommandLine
import Flatsheet.Proofs.Conversion.Run
import Flatsheet.Proofs.System.Growth

/-!
# `Proofs.CommandLine` — what a conversion that fails leaves behind

A conversion that fails has read nothing, or has made nothing of what it has read, or could not write it. In most of
these cases the file for the result is as it was (`FileTree.Untouched`). The exception is a run of the processor that is
no success but has a result all the same (`Overwritten`): of a sheet that is refused the result is empty, and of a sheet
that is found invalid in strict mode it is what the passes have made of it. This result is written.

`convert_failed` is the command on a tree, and `runCommandLine_convert_failed` the whole program.
-/

namespace Flatsheet.CommandLine

open Text FileTree

/-! ## The command that is carried out -/

theorem command_of_valueOption? {argument value : Text} {i j : Invocation}
    (h : valueOption? argument value i = some j) : j.command = i.command := by
  unfold valueOption? at h
  split at h
  · cases h
    rfl
  · split at h
    · cases h
      rfl
    · cases h

theorem command_of_flag? {argument : Text} {i j : Invocation} (h : flag? argument i = some j) :
    j.command = i.command := by
  unfold flag? at h
  split at h <;> cases h <;> rfl

theorem command_of_readArgument {argument : Text} {i j : Invocation} (h : readArgument argument i = .ok j) :
    j.command = i.command := by
  unfold readArgument at h
  split at h
  · next k hflag =>
    cases h
    exact command_of_flag? hflag
  · split at h
    · cases h
    · cases h
      rfl

/-- Arguments do not change the command. -/
theorem command_of_readArguments {args : List Text} {i j : Invocation} (h : readArguments i args = .ok j) :
    j.command = i.command := by
  induction i, args using readArguments.induct with
  | case1 i =>
    cases h
    rfl
  | case2 i argument hvalue =>
    rw [readArguments, if_pos hvalue] at h
    cases h
  | case3 i argument hvalue =>
    rw [readArguments, if_neg hvalue] at h
    exact command_of_readArgument h
  | case4 i argument value rest k hvalue ih =>
    rw [readArguments, hvalue] at h
    exact (ih h).trans (command_of_valueOption? hvalue)
  | case5 i argument value rest hvalue k hread ih =>
    rw [readArguments, hvalue] at h
    simp only [hread] at h
    exact (ih h).trans (command_of_readArgument hread)
  | case6 i argument value rest hvalue e hread =>
    rw [readArguments, hvalue] at h
    simp only [hread] at h
    cases h

/-- A conversion works on the files only. -/
theorem runCommand_convert {i : Invocation} (h : i.command = "convert".toList) (s : Settings) (m : Machine) :
    runCommand i s m = ((convert i s m.tree).1, { m with tree := (convert i s m.tree).2 }) := by
  have hcommand : String.ofList i.command = "convert" := by
    rw [h]
    rfl
  unfold runCommand
  rw [hcommand]
  rfl

/-! ## A conversion that fails -/

/-- How a sheet is converted. -/
def conversionOptions (s : Settings) (mode : Mode) : ConversionOptions := { ConversionOptions.ofSettings s with mode }

/-- **A conversion has failed and its result is written**: the run of the processor has refused the sheet, or it is
strict and has found the sheet invalid. -/
def Overwritten (i : Invocation) (s : Settings) (input output : Text) (t t' : FileTree) : Prop :=
  ∃ mode content p notes,
    Mode.ofName? i.mode = some mode ∧ t.read input = .ok content ∧
    (process (conversionOptions s mode) (none : Option (Check.Compiler Unit)) content input ()).1 = .ok (p, notes) ∧
    (((conversionOptions s mode).refusal? content).isSome = true ∧ p.output = [] ∨
      s.strictMode = true ∧ ∃ v, p.validation = some v ∧ v.isValid = false) ∧
    t'.fileText? output = some (terminated p.output)

theorem status_ofBool {b : Bool} (h : ExitStatus.ofBool b ≠ .success) : b = false := by
  cases b with
  | false => rfl
  | true => exact absurd rfl h

/-- **What a conversion that fails leaves behind.** -/
theorem convert_failed {i : Invocation} {s : Settings} {t t' : FileTree} {outcome : Outcome}
    (h : convert i s t = (outcome, t')) (hfailed : outcome.status ≠ .success) :
    t' = t ∨ ∃ input output, i.positional = [input, output] ∧
      (Untouched output t t' ∨ Overwritten i s input output t t') := by
  unfold convert at h
  dsimp only at h
  split at h
  · -- without a second argument nothing is written
    left
    split at h
    · cases h
      rfl
    · split at h
      · cases h
        rfl
      · split at h
        · cases h
          rfl
        · cases h
          rfl
  · next input output hpositional =>
    split at h
    · cases h
      exact .inl rfl
    · next mode hmode =>
      split at h
      · cases h
        exact .inl rfl
      · next content hcontent =>
        split at h
        · cases h
          exact .inl rfl
        · next p notes hprocess =>
          right
          refine ⟨input, output, hpositional, ?_⟩
          split at h
          · -- whatever the run has given, it could not be written
            next cause u hwrite =>
            cases h
            exact .inl (untouched_of_writeFile_error hwrite)
          · -- the result is written, so it is the run itself that has failed
            next u hwrite =>
            cases h
            have hfailure := failure_of_process hprocess (status_ofBool hfailed)
            refine .inr ⟨mode, content, p, notes, hmode, hcontent, hprocess, hfailure, ?_⟩
            exact fileText?_of_writeFile hwrite
  · cases h
    exact .inl rfl

/-- **What a run of the program leaves behind that is to convert a sheet and fails**: nothing has happened, or the file
for the result is as it was, or the result of a run that has refused the sheet or found it invalid is written. -/
theorem runCommandLine_convert_failed {args : List Text} {m m' : Machine} {outcome : Outcome}
    (h : runCommandLine ("convert".toList :: args) m = (outcome, m')) (hfailed : outcome.status ≠ .success) :
    m' = m ∨ ∃ i s input output,
      readArguments { command := "convert".toList } args = .ok i ∧ i.positional = [input, output] ∧
      Settings.resolve i.overrides m.lookup? = .ok s ∧
      (Untouched output m.tree m'.tree ∨ Overwritten i s input output m.tree m'.tree) := by
  have hinvocation : runCommandLine ("convert".toList :: args) m = runInvocation "convert".toList args m := by
    cases args with
    | nil => rfl
    | cons a args => rfl
  rw [hinvocation, runInvocation] at h
  -- a line that cannot be read and settings that cannot be resolved leave the machine as it is
  cases hread : readArguments { command := "convert".toList } args with
  | error e =>
    rw [hread] at h
    cases h
    exact .inl rfl
  | ok i =>
    rw [hread] at h
    dsimp only at h
    cases hresolve : Settings.resolve i.overrides m.lookup? with
    | error e =>
      rw [hresolve] at h
      cases h
      exact .inl rfl
    | ok s =>
      rw [hresolve] at h
      dsimp only at h
      rw [runCommand_convert (command_of_readArguments hread)] at h
      generalize hconvert : convert i s m.tree = result at h
      cases h
      rcases convert_failed hconvert hfailed with htree | ⟨input, output, hpositional, htree⟩
      · left
        rw [htree]
      · right
        exact ⟨i, s, input, output, rfl, hpositional, hresolve, htree⟩

/-- A sheet, a file for its result, and whatever else lies there. -/
def desk (sheet : String) (others : List (Location × Node)) : Machine where
  tree := { entries :=
    (["in.scss".toList], .file sheet.toList false) :: (["out.scss".toList], .file "keep\n".toList false) :: others }

/-- The arguments by which the sheet is converted into the file. -/
def inToOut : List Text := ["in.scss".toList, "out.scss".toList]

/-- A directory has the temporary name of the result, so that the result cannot be written. -/
theorem crowdedDesk_kept :
    let m := desk "$a: b;\n" [(["out.scss.tmp".toList], .directory)]
    ∃ outcome m', runCommandLine ("convert".toList :: inToOut) m = (outcome, m') ∧ outcome.status = .failure ∧
      (m' = m ∨ ∃ i s input output,
        readArguments { command := "convert".toList } inToOut = .ok i ∧ i.positional = [input, output] ∧
        Settings.resolve i.overrides m.lookup? = .ok s ∧
        (Untouched output m.tree m'.tree ∨ Overwritten i s input output m.tree m'.tree)) ∧
      m'.tree.fileText? "out.scss".toList = some "keep\n".toList := by
  refine ⟨_, _, rfl, by decide +kernel, runCommandLine_convert_failed rfl (by decide +kernel), by decide +kernel⟩

/-- A sheet without any text is refused, and what there was for its result is gone. -/
theorem refused_sheet_empties_output :
    let m := desk " \n" []
    let r := runCommandLine ("convert".toList :: inToOut) m
    r.1.status = .failure ∧ r.2.tree.fileText? "out.scss".toList = some [] ∧
      ¬ Untouched "out.scss".toList m.tree r.2.tree := by
  have hbefore : (desk " \n" []).tree.fileText? "out.scss".toList = some "keep\n".toList := by
    decide +kernel
  have hempty : (runCommandLine ("convert".toList :: inToOut) (desk " \n" [])).2.tree.fileText? "out.scss".toList =
      some [] := by
    decide +kernel
  refine ⟨by decide +kernel, hempty, ?_⟩
  intro huntouched
  have hkept := huntouched.found hbefore
  rw [hempty] at hkept
  cases hkept

end Flatsheet.CommandLine
