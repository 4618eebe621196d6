import Flatsheet.Conversion.Processor
import Flatsheet.Repair.Loop
import Flatsheet.Shell.Run
import Flatsheet.Theme.SourceGroup

/-!
# `Flatsheet.Theme.Migration` — a theme is converted group by group

Each group of style sheets is merged, converted and written on its own; the groups do not depend on each
other. Then the written files can be formatted, and compiled and repaired.

## Contents

* `MigrationOptions`, `FileSummary`, `FormatStatus`, `Migration`
* `combine`, `convertGroup`, `convertGroups`: the conversion
* `Programs`, `runFormatter`: the formatter
* `migrate`
-/

namespace Flatsheet.Theme

open Text Shell Repair

/-! ## Options and results -/

/-- What is to be converted. -/
structure MigrationOptions where
  /-- The directory of the theme, whose style sheets are in `css`. -/
  source : Text
  /-- The directory to which the files are written. -/
  dest : Text
  brand : Text := []
  /-- Run the formatter on the files. -/
  runFormatter : Bool := true
deriving DecidableEq, Repr

/-- What became of a group. -/
structure FileSummary where
  group : Text
  /-- The names of the style sheets that there were. -/
  sources : List Text := []
  output : Text
  success : Bool := false
  written : Bool := false
  inputBytes : Nat := 0
  outputBytes : Nat := 0
  counters : Counters := {}
  fragments : List Text := []
  errors : List Text := []
  warnings : List Text := []
deriving DecidableEq, Repr

/-- What became of the formatting. -/
inductive FormatStatus
  | notRun
  | formatted
  | skipped (reason : Text)
  | failed (reason : Text)
deriving DecidableEq, Repr

namespace FormatStatus

/-- The word for a status. -/
def name : FormatStatus → Text
  | notRun => "not_run".toList
  | formatted => "formatted".toList
  | skipped _ => "skipped".toList
  | failed _ => "failed".toList

/-- The reason for a status, if there is one. -/
def message : FormatStatus → Text
  | skipped reason => reason
  | failed reason => reason
  | _ => []

end FormatStatus

/-- What became of a theme. -/
structure Migration where
  files : List FileSummary := []
  format : FormatStatus := .notRun
  verification : Option Verification := none
  errors : List Text := []
deriving Repr

namespace Migration

/-- There are no errors, and every file was a success. -/
def success (m : Migration) : Bool := m.files.all (·.success) && m.errors.isEmpty

/-- The counts of all files. -/
def totals (m : Migration) : Counters := m.files.foldl (fun c f => c.add f.counters) {}

/-- The size of all that was read. -/
def inputBytes (m : Migration) : Nat := m.files.foldr (·.inputBytes + ·) 0

/-- The size of all that was written. -/
def outputBytes (m : Migration) : Nat := m.files.foldr (·.outputBytes + ·) 0

/-- The paths of the written files. -/
def written (m : Migration) : List Text := (m.files.filter (·.written)).map (·.output)

/-- Counts on one line. -/
def countsText (c : Counters) (inputBytes outputBytes : Nat) : Text :=
  Text.ofNat c.variablesHoisted ++ " variables, ".toList ++ Text.ofNat c.mixinsResolved
    ++ " mixins expanded, ".toList ++ Text.ofNat c.mixinsMarked ++ " marked, ".toList
    ++ Text.ofNat c.functionsReplaced ++ " helpers, ".toList ++ Text.ofNat c.pathsConverted
    ++ " paths, ".toList ++ Text.ofNat c.importsRemoved ++ " imports, ".toList
    ++ Text.ofNat inputBytes ++ " -> ".toList ++ Text.ofNat outputBytes ++ " bytes\n".toList

/-- A file as lines of the summary. -/
def fileText (f : FileSummary) : Text :=
  "  ".toList ++ (if f.success then "ok    ".toList else "FAILED".toList) ++ " ".toList
    ++ Path.fileName f.output ++ " <- ".toList ++ List.intercalate ", ".toList f.sources
    ++ ": ".toList ++ countsText f.counters f.inputBytes f.outputBytes
    ++ (f.fragments.flatMap fun n => "      appended ".toList ++ n ++ ['\n'])
    ++ (f.errors.flatMap fun e => "      error: ".toList ++ e ++ ['\n'])
    ++ f.warnings.flatMap fun w => "      warning: ".toList ++ w ++ ['\n']

/-- A verification as lines of the summary. -/
def verificationText (v : Verification) : Text :=
  "  verification: ".toList ++ v.outcome.name ++ ", ".toList ++ v.message ++ ['\n']
    ++ if v.report.isEmpty then [] else v.report.format

/-- The summary, which gives the time taken as a text. -/
def text (m : Migration) (elapsed : Text) : Text :=
  "Migration ".toList ++ (if m.success then "succeeded".toList else "failed".toList) ++ " (".toList
    ++ Text.ofNat m.files.length ++ " files, ".toList ++ elapsed ++ " ms)\n".toList
    ++ m.files.flatMap fileText
    ++ "  totals: ".toList ++ countsText m.totals m.inputBytes m.outputBytes
    ++ "  formatter: ".toList ++ m.format.name
    ++ (if m.format.message.isEmpty then [] else " (".toList ++ m.format.message ++ ")".toList)
    ++ ['\n']
    ++ ((m.verification.map verificationText).getD [])
    ++ m.errors.flatMap fun e => "  error: ".toList ++ e ++ ['\n']

end Migration

/-! ## Groups -/

/-- The directory of the style sheets of a theme. -/
def styleDirectory (theme : Text) : Text := Path.join theme "css".toList

/-- The style sheets that there are, with their contents. -/
def readSources (directory : Text) (t : FileTree) (sources : List Text) : List (Text × Text) :=
  sources.filterMap fun s =>
    let path := Path.join directory s
    if t.isFile path then (t.read path).toOption.map (s, ·) else none

/-- Style sheets merged into one, with an empty line between each two. -/
def combine (contents : List Text) : Text :=
  contents.foldl (fun t c => (if t.isEmpty then t else endLine t ++ ['\n']) ++ c) []

/-- A note about the migration. -/
def migrationNote (severity : Severity) (stage message : Text) : Note :=
  ⟨severity, "migrate".toList, stage, message⟩

/-- The text of a file before it is written: the converted style sheet, and in the first group the
fragments of the brand. -/
def finishOutput (s : Settings) (o : MigrationOptions) (g : SourceGroup) (output : Text)
    (t : FileTree) : Appended :=
  if g.name = "inside".toList && !o.brand.isEmpty then
    appendFragments output o.brand s.resourceDir t
  else { content := output }

/-- The summary of a group before its file is written. -/
def FileSummary.ofProcessed (f : FileSummary) (p : Processed) : FileSummary :=
  { f with
    inputBytes := p.inputBytes
    counters := p.counters
    errors := f.errors ++ p.refusal.toList.map Refusal.message ++ p.errors.map Check.Issue.format
    warnings := p.warnings.map Check.Issue.format }

/-- Writes the file of a group. -/
def writeGroup (s : Settings) (o : MigrationOptions) (g : SourceGroup) (f : FileSummary)
    (p : Processed) (t : FileTree) : FileSummary × List Note × FileTree :=
  if !p.success then (f, [], t)
  else
    let a := finishOutput s o g p.output t
    let f := { f with fragments := a.files }
    match a.failure with
    | some cause =>
      ({ f with errors := f.errors ++ ["brand fragments: ".toList ++ cause.message] }, [], t)
    | none =>
      let output := endLine a.content
      match t.writeFile f.output output with
      | (.error cause, t) =>
        ({ f with errors := f.errors ++ [cause.message] },
          [migrationNote .error g.name cause.message], t)
      | (.ok (), t) =>
        ({ f with
            written := true
            outputBytes := output.length
            success := p.refusal.isNone && (!s.strictMode || p.errors.isEmpty) },
          [migrationNote .info g.name ("wrote ".toList ++ f.output)], t)

/-- What comes of a group: nothing if it has no style sheets, a summary, or the message of a
breakdown. -/
abbrev GroupResult := Except Text (Option FileSummary) × List Note

/-- Converts a group. -/
def convertGroup (s : Settings) (o : MigrationOptions) (g : SourceGroup) (t : FileTree) :
    GroupResult × FileTree :=
  let sources := readSources (styleDirectory o.source) t g.sources
  if sources.isEmpty then ((.ok none, []), t)
  else
    let f : FileSummary :=
      { group := g.name, sources := sources.map (·.1), output := Path.join o.dest g.output }
    let first := migrationNote .info g.name
      ("converting ".toList ++ Text.ofNat sources.length ++ " file(s) into ".toList ++ g.output)
    let processed : Except Text (Processed × List Note) :=
      (process (.ofSettings s) (none : Option (Check.Compiler Unit)) (combine (sources.map (·.2)))
        g.output ()).1
    match processed with
    | .error message => ((.error message, [first]), t)
    | .ok (p, notes) =>
      let (f, more, t) := writeGroup s o g (f.ofProcessed p) p t
      ((.ok (some f), first :: notes ++ more), t)

/-- Converts groups one after the other. Each result keeps the number of its group. -/
def convertGroups (s : Settings) (o : MigrationOptions) :
    List (Nat × SourceGroup) → FileTree → List (Nat × SourceGroup × GroupResult) × FileTree
  | [], t => ([], t)
  | (n, g) :: gs, t =>
    let (result, t) := convertGroup s o g t
    let (results, t) := convertGroups s o gs t
    ((n, g, result) :: results, t)

/-- All groups with their numbers, from one. -/
def numberedGroups : List (Nat × SourceGroup) := SourceGroup.all.zipIdx.map fun (g, i) => (i + 1, g)

/-- The summaries of groups, and the errors of those that broke down. -/
def collectResults (results : List (Nat × SourceGroup × GroupResult)) : Migration where
  files := results.filterMap fun (_, _, r) => (r.1.toOption).join
  errors := results.filterMap fun (_, g, r) => match r.1 with
    | .error message => some (g.name ++ ": ".toList ++ message)
    | .ok _ => none

/-- The events of groups, each under the number of its group, and those about breakdowns. -/
def collectEvents (results : List (Nat × SourceGroup × GroupResult)) : List Event :=
  (results.flatMap fun (n, _, r) => r.2.map (⟨·, n⟩))
    ++ results.filterMap fun (_, g, r) => match r.1 with
      | .error message => some ⟨migrationNote .error g.name message, 0⟩
      | .ok _ => none

/-! ## Formatting and verification -/

/-- The programs of a world. -/
structure Programs (σ : Type) where
  isAvailable : Text → σ → Bool
  /-- Run a command with a time limit in milliseconds. -/
  run : List Text → Int → σ → ProgramResult × σ

/-- The time limit of the formatter, in milliseconds. -/
def formatterTimeout : Int := 120000

/-- A migration under way in a world. -/
structure MigrationRun (σ : Type) where
  world : σ
  result : Migration := {}
  events : List Event := []

namespace MigrationRun

variable {σ : Type}

/-- There is something to say that concerns no group. -/
def note (r : MigrationRun σ) (severity : Severity) (stage message : Text) : MigrationRun σ :=
  { r with events := r.events ++ [⟨migrationNote severity stage message, 0⟩] }

/-- The formatting is over. -/
def formatted (r : MigrationRun σ) (status : FormatStatus) : MigrationRun σ :=
  { r with result := { r.result with format := status } }

/-- Runs the formatter on the written files. -/
def runFormatter (programs : Programs σ) (formatter : Text) (r : MigrationRun σ) : MigrationRun σ :=
  let failed (reason : Text) (r : MigrationRun σ) : MigrationRun σ :=
    (r.formatted (.failed reason)).note .warning "format".toList
      (formatter ++ " failed: ".toList ++ reason)
  if formatter.isEmpty || r.result.written.isEmpty then
    r.formatted (.skipped "no formatter configured".toList)
  else if !programs.isAvailable formatter r.world then
    let reason := formatter ++ " not found".toList
    (r.formatted (.skipped reason)).note .info "format".toList (reason ++ ", skipping".toList)
  else
    match programs.run (formatter :: "--write".toList :: r.result.written) formatterTimeout r.world with
    | (.exited 0 _, world) => { r with world }.formatted .formatted
    | (.exited code _, world) => failed ("exit code ".toList ++ Text.ofNat code) { r with world }
    | (.timedOut _, world) => failed "timed out".toList { r with world }
    | (.notStarted message, world) => failed message { r with world }

/-- Verifies the written files. A verification that does not succeed is an error. -/
def runVerification (env : Surroundings σ) (o : VerifyOptions) (r : MigrationRun σ) : MigrationRun σ :=
  let v := verify env o r.result.written [] r.world
  let errors :=
    if v.result.outcome = .succeeded then []
    else ["verification ".toList ++ v.result.outcome.name ++ ": ".toList ++ v.result.message]
  { r with
    world := v.world
    result := { r.result with
      verification := some v.result, errors := r.result.errors ++ errors }
    events := r.events ++ v.notes.map (⟨·, 0⟩) }

/-- The last thing to say. -/
def finish (r : MigrationRun σ) : MigrationRun σ :=
  let outcome := if r.result.success then "succeeded".toList else "failed".toList
  r.note (if r.result.success then .info else .error) "done".toList
    (Text.ofNat r.result.files.length ++ " file(s), ".toList ++ outcome)

end MigrationRun

/-! ## Migration -/

/-- A migration that finds nothing to convert has an error. -/
def Migration.requireFiles (m : Migration) (o : MigrationOptions) : Migration :=
  if m.files.isEmpty && m.errors.isEmpty then
    { m with
      errors := ["no source stylesheets found in ".toList ++ styleDirectory o.source] }
  else m

/-- Converts a theme, formats the written files if that is wanted, and verifies them if there are options
for that. -/
def migrate {σ : Type} (s : Settings) (o : MigrationOptions) (env : Surroundings σ)
    (programs : Programs σ) (verifyOptions : Option VerifyOptions) (world : σ) : MigrationRun σ :=
  if !(env.tree world).isDirectory (styleDirectory o.source) then
    let message := "no css directory in ".toList ++ o.source
    ({ world, result := { errors := [message] } } : MigrationRun σ).note .error "start".toList message
  else
    let (results, t) := convertGroups s o numberedGroups (env.tree world)
    let r : MigrationRun σ :=
      { world := env.setTree t world, result := (collectResults results).requireFiles o
        events := collectEvents results }
    let r := if o.runFormatter then r.runFormatter programs s.formatter else r
    let r := match verifyOptions with
      | some v => if r.result.written.isEmpty then r else r.runVerification env v
      | none => r
    r.finish

/-- The programs of a machine. -/
def machinePrograms : Programs Machine where
  isAvailable := fun name m => (m.find? name).isSome
  run := fun command timeout => runProgram command timeout []

end Flatsheet.Theme
