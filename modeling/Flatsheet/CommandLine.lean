import Flatsheet.Check.SassCommand
import Flatsheet.Repair.Tools
import Flatsheet.Theme.Migration

/-!
# `Flatsheet.CommandLine` — the commands of the program

A command line is read, the settings are resolved, and the command is carried out on a machine. What the
program prints and its exit status are a function of the machine and of the arguments.

## Contents

* `Invocation`, `UsageError`: what the arguments say
* `ExitStatus`, `Outcome`: what a command leaves behind
* `convert`, `validate`, `migrateTheme`: the commands
* `runCommandLine`, and `footprint`: the paths that matter to it
-/

namespace Flatsheet.CommandLine

open Text

/-! ## Arguments -/

/-- What the arguments say. -/
structure Invocation where
  command : Text
  positional : List Text := []
  brand : Text := []
  mode : Text := Mode.name .full
  verify : Bool := false
  strict : Bool := false
  compile : Bool := false
  format : Bool := true
  quiet : Bool := false
  verbose : Bool := false
deriving DecidableEq, Repr

/-- Why arguments cannot be read. -/
inductive UsageError
  | needsValue (option : Text)
  | unknownOption (argument : Text)
deriving DecidableEq, Repr

/-- The text of an error. -/
def UsageError.message : UsageError → Text
  | needsValue option => option ++ " needs a value".toList
  | unknownOption argument => "unknown option '".toList ++ argument ++ "'".toList

/-- The options that take a value. -/
def valueOption? (argument value : Text) (i : Invocation) : Option Invocation :=
  if argument = "--brand".toList then some { i with brand := value }
  else if argument = "--mode".toList then some { i with mode := value }
  else none

/-- The options that take no value. -/
def flag? (argument : Text) (i : Invocation) : Option Invocation :=
  match String.ofList argument with
  | "--verify" => some { i with verify := true }
  | "--strict" => some { i with strict := true }
  | "--compile" => some { i with compile := true }
  | "--no-format" => some { i with format := false }
  | "--quiet" => some { i with quiet := true }
  | "--verbose" => some { i with verbose := true }
  | _ => none

/-- An argument that is neither an option with a value nor the value of one. -/
def readArgument (argument : Text) (i : Invocation) : Except UsageError Invocation :=
  match flag? argument i with
  | some i => .ok i
  | none =>
    if argument.head? = some '-' then .error (.unknownOption argument)
    else .ok { i with positional := i.positional ++ [argument] }

/-- What the arguments after the command say. -/
def readArguments (i : Invocation) : List Text → Except UsageError Invocation
  | [] => .ok i
  | [argument] =>
    if (valueOption? argument [] i).isSome then .error (.needsValue argument)
    else readArgument argument i
  | argument :: value :: rest =>
    match valueOption? argument value i with
    | some i => readArguments i rest
    | none =>
      match readArgument argument i with
      | .ok i => readArguments i (value :: rest)
      | .error e => .error e

/-! ## Outcomes -/

/-- How the program ends. -/
inductive ExitStatus
  | success
  | failure
  | misuse
deriving DecidableEq, Repr

/-- The number of an exit status. -/
def ExitStatus.code : ExitStatus → Nat
  | success => 0
  | failure => 1
  | misuse => 2

/-- The exit status after work that succeeds or fails. -/
def ExitStatus.ofBool (succeeded : Bool) : ExitStatus := if succeeded then .success else .failure

/-- What the program leaves behind. -/
structure Outcome where
  status : ExitStatus
  /-- What it prints. -/
  out : Text := []
  /-- What it prints about itself. -/
  err : Text := []
deriving DecidableEq, Repr

/-- The name of the program. -/
def programName : Text := "restyle".toList

/-- The version of the program. -/
def versionText : Text := programName ++ " 0.1.0\n".toList

/-- How the program is used. -/
def usage : Text :=
  "usage: ".toList ++ programName ++ (" migrate <source-theme-dir> <dest-theme-dir> [--brand NAME]"
      ++ " [--verify] [--strict] [--no-format] [--quiet] [--verbose]\n").toList
    ++ "       ".toList ++ programName
    ++ " convert <input.scss> [<output.scss>] [--mode MODE] [--strict]\n".toList
    ++ "       ".toList ++ programName ++ " validate <file.scss> [--compile]\n".toList
    ++ "modes: full, variables_only, mixins_only, validation_only, dry_run\n".toList

/-- A line about what went wrong. -/
def errorLine (who message : Text) : Text := who ++ ": ".toList ++ message ++ ['\n']

/-- The program was not used as it should be. -/
def misused (who message : Text) : Outcome := ⟨.misuse, [], errorLine who message ++ usage⟩

/-- The least severity of the events that are printed. -/
def Invocation.least (i : Invocation) : Severity :=
  if i.quiet then .warning else if i.verbose then .debug else .info

/-- The events that are printed, a line each. -/
def eventLines (least : Severity) (events : List Event) : Text :=
  (events.filter fun e => e.note.severity.atLeast least).flatMap fun e => e.format ++ ['\n']

/-- Issues, a line each. -/
def issueLines (issues : List Check.Issue) : Text := issues.flatMap fun i => i.format ++ ['\n']

/-- A text that is not empty ends in a line feed. -/
def terminated (t : Text) : Text := Theme.endLine t

/-! ## Commands -/

/-- Converts one style sheet. The result is printed, or written to the file of the second argument. -/
def convert (i : Invocation) (s : Settings) (t : FileTree) : Outcome × FileTree :=
  let who := "convert".toList
  let work (mode : Mode) (input : Text) (output : Option Text) : Outcome × FileTree :=
    match t.read input with
    | .error cause => (⟨.failure, [], errorLine who cause.message⟩, t)
    | .ok content =>
      let processed : Except Text (Processed × List Note) :=
        (process { ConversionOptions.ofSettings s with mode } (none : Option (Check.Compiler Unit)) content
          input ()).1
      match processed with
      | .error message => (⟨.failure, [], errorLine who message⟩, t)
      | .ok (p, notes) =>
        let said := eventLines i.least (notes.map (⟨·, 0⟩)) ++ issueLines p.errors
        let last := p.summary ++ ['\n']
        match output with
        | none => (⟨.ofBool p.success, terminated p.output, said ++ last⟩, t)
        | some path =>
          match t.writeFile path (terminated p.output) with
          | (.error cause, t) => (⟨.failure, [], said ++ errorLine who cause.message⟩, t)
          | (.ok (), t) => (⟨.ofBool p.success, [], said ++ last⟩, t)
  let withMode (input : Text) (output : Option Text) : Outcome × FileTree :=
    match Mode.ofName? i.mode with
    | none => (misused who ("unknown mode '".toList ++ i.mode ++ "'".toList), t)
    | some mode => work mode input output
  match i.positional with
  | [input] => withMode input none
  | [input, output] => withMode input (some output)
  | _ => (misused who "expected <input.scss> [<output.scss>]".toList, t)

/-- What the compiler made of a style sheet, if it was to be asked. -/
def compilationLine (i : Invocation) (s : Settings) (v : Check.Validation) : Text :=
  match v.compilation with
  | some c => "compilation: ".toList ++ (if c.success then "ok".toList else "failed".toList) ++ ['\n']
  | none =>
    if i.compile then "compilation: skipped (".toList ++ s.sassBinary ++ " not available)\n".toList
    else []

/-- Validates one style sheet. -/
def validate (i : Invocation) (s : Settings) (m : Machine) : Outcome × Machine :=
  let who := "validate".toList
  match i.positional with
  | [path] =>
    match m.tree.read path with
    | .error cause => (⟨.failure, [], errorLine who cause.message⟩, m)
    | .ok content =>
      let command : Check.SassCommand := ⟨s.sassBinary, s.compilerTimeout⟩
      let compiler := if i.compile then some command.compiler else none
      match Check.validate compiler content { machine := m } with
      | (.error message, session) => (⟨.failure, [], errorLine who message⟩, session.machine)
      | (.ok (v, notes), session) =>
        (⟨.ofBool v.isValid,
          issueLines v.issues ++ compilationLine i s v
            ++ (if v.isValid then "valid\n".toList else "invalid\n".toList),
          eventLines i.least (notes.map (⟨·, 0⟩))⟩, session.machine)
  | _ => (misused who "expected <file.scss>".toList, m)

/-- The time that a migration takes is not measured. -/
def elapsed : Text := "0.0".toList

/-- Converts a theme. -/
def migrateTheme (i : Invocation) (s : Settings) (m : Machine) : Outcome × Machine :=
  match i.positional with
  | [source, dest] =>
    let options : Theme.MigrationOptions :=
      { source, dest, brand := i.brand, runFormatter := i.format }
    let verifyOptions :=
      if i.verify then some (Repair.VerifyOptions.ofSettings s (Theme.styleDirectory dest)) else none
    let r := Theme.migrate s options (Repair.machineSurroundings s.logContainer)
      Theme.machinePrograms verifyOptions m
    (⟨.ofBool r.result.success, r.result.text elapsed, eventLines i.least r.events⟩, r.world)
  | _ =>
    (misused "migrate".toList "expected <source-theme-dir> <dest-theme-dir>".toList, m)

/-- Carries out a command. -/
def runCommand (i : Invocation) (s : Settings) (m : Machine) : Outcome × Machine :=
  match String.ofList i.command with
  | "migrate" => migrateTheme i s m
  | "convert" =>
    let (outcome, tree) := convert i s m.tree
    (outcome, { m with tree })
  | "validate" => validate i s m
  | _ => (misused programName ("unknown command '".toList ++ i.command ++ "'".toList), m)

/-- The settings that the arguments override. -/
def Invocation.overrides (i : Invocation) : Overrides :=
  { strictMode := if i.strict then some true else none }

/-- The paths at which a command looks for something. -/
def Invocation.footprint (i : Invocation) (s : Settings) : List Text :=
  match i.positional with
  | [source, dest] =>
    let css := Theme.styleDirectory source
    let resources := Path.join s.resourceDir (lower i.brand)
    [source, dest, css, Theme.styleDirectory dest]
      ++ (Theme.SourceGroup.all.flatMap fun g =>
        Path.join dest g.output :: g.sources.map (Path.join css))
      ++ (Theme.BrandFragment.ofBrand i.brand).map fun f => Path.join resources f.file
  | paths => paths

/-- The paths at which the program looks for something. -/
def footprint (arguments : List Text) (env : Environment) : List Text :=
  match readArguments { command := arguments.headD [] } arguments.tail with
  | .error _ => []
  | .ok i =>
    match Settings.resolve i.overrides env with
    | .error _ => []
    | .ok s => i.footprint s

/-- Reads a command line and carries it out. -/
def runInvocation (command : Text) (arguments : List Text) (m : Machine) : Outcome × Machine :=
  match readArguments { command } arguments with
  | .error e => (misused programName e.message, m)
  | .ok i =>
    match Settings.resolve i.overrides m.lookup? with
    | .error e => (⟨.misuse, [], errorLine programName e.message⟩, m)
    | .ok s => runCommand i s m

/-- The program. -/
def runCommandLine (arguments : List Text) (m : Machine) : Outcome × Machine :=
  match arguments with
  | [] => (⟨.misuse, [], usage⟩, m)
  | [a] =>
    if a = "-h".toList || a = "--help".toList then (⟨.success, usage, []⟩, m)
    else if a = "-V".toList || a = "--version".toList then (⟨.success, versionText, []⟩, m)
    else runInvocation a [] m
  | command :: rest => runInvocation command rest m

end Flatsheet.CommandLine
