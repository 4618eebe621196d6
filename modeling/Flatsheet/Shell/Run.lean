import Flatsheet.Shell.Compound
import Flatsheet.Shell.Invocation

/-!
# `Flatsheet.Shell.Run` — running programs

## Contents

* `runShell`, `runEnvironment`: the programs that run others
* `step`, `perform`: every task
* `baseTree`: the files that every machine has
* `ProgramResult`, `runProgram`: a program is run from the outside
-/

namespace Flatsheet.Shell

open Text

/-! ## Programs that run others -/

/-- The session of a program that takes the place of another one in a session. -/
def Session.replaced (s : Session) (name : Text) : Session :=
  { world := s.world, number := s.number, root := s.number, waiting := s.waiting, name
    vars := s.vars.filter fun v => v.2.exported && v.2.value.isSome
    channels := s.channels, line := 0, mask := s.mask
    deafTo := (s.traps.filter (·.2.isEmpty)).map (·.1) ++ s.deafTo }

/-- The variables that a shell sets when it starts. -/
def shellVariables : List (String × String) :=
  [("IFS", " \t\n"), ("OPTIND", "1"), ("PS1", "# "), ("PS2", "> "), ("PS4", "+ ")]

/-- A shell that has just started. -/
def startShell : Action Unit := modify fun s =>
  let s := shellVariables.foldl (fun s (name, value) =>
    if name = "IFS" || name = "OPTIND" || (s.value? name.toList).isNone then
      s.setValue name.toList value.toList
    else s) s
  let s := s.setValue "PPID".toList (ofNat (s.waiting.headD 1))
  s.putVariable "PWD".toList (some { value := some (Builtin.currentPath s), exported := true })

/-- A shell with the arguments of its command line. -/
def runShell (again : Task → Action Unit) (arguments : List Text) : Action Unit := do
  startShell
  let (as, _, asked) ← Builtin.switchAll true (arguments.length + 1) arguments
  match as, asked, (← get).has 's' with
  | [], true, _ => fail "-c requires an argument".toList
  | t :: as, true, _ =>
    modify fun s => { s with name := as.headD s.name, arguments := as.tail }
    again (.script t false false)
  | name :: as, false, false =>
    let t ← readScript name
    modify fun s => { s with name, arguments := as }
    again (.script t false true)
  | as, false, _ =>
    modify fun s => { s with arguments := as, options := 's' :: s.options.filter (· ≠ 's') }
    let t := (← takeInput 0 World.readAll?).getD []
    again (.script (t.filter (· ≠ '\x00')) false true)

/-- The options of the program that changes the environment. -/
def environmentGrammar : Utility.Grammar :=
  { letters := "iu:0C:S:v"
    words := [("ignore-environment", 'i'), ("unset", 'u'), ("null", '0'), ("chdir", 'C'),
      ("split-string", 'S')]
    inOrder := true, failure := 125 }

/-- Runs a program in a changed environment, or shows the environment. -/
def runEnvironment (again : Task → Action Unit) (arguments : List Text) : Action Unit := do
  let (os, as) ← Utility.readArguments environmentGrammar arguments
  let (os, as) ← match os.find? fun o => o.1 = 'S' with
    | some (_, t) =>
      let words := (splitOn ' ' t).filter (!·.isEmpty)
      let (more, rest) ← Utility.readArguments environmentGrammar (words ++ as)
      pure (os ++ more, rest)
    | none => pure (os, as)
  let bare := as.head? = some ['-']
  let as := if bare then as.tail else as
  if bare || os.any fun o => o.1 = 'i' then modify fun s => { s with vars := [] }
  for (c, name) in os do
    if c = 'u' then modify fun s => s.putVariable name none
  let isSetting (a : Text) : Bool := a.contains '='
  for a in as.takeWhile isSetting do
    let (name, value) := Builtin.splitAssignment a
    modify fun s =>
      let others := s.vars.filter (·.1 ≠ name)
      { s with vars := others ++ [(name, { value, exported := true })] }
  match as.dropWhile isSetting with
  | [] =>
    let lines := (← get).environment.flatMap fun v => v.1 ++ '=' :: v.2 ++ ['\n']
    Utility.putOr environmentGrammar.failure lines
  | name :: as =>
    let s ← get
    match startFrom { s.world.machine with environment := s.environment } ⟨name, as⟩ with
    | .ok (program, call) => again (.program program call)
    | .error cause =>
      Utility.say (Utility.plainlyQuoted name ++ ": ".toList ++ cause.message)
      if cause = .notFound && name.contains ' ' then
        Utility.say "use -[v]S to pass options in shebang lines".toList
      setStatus (if cause = .notFound then 127 else 126)

/-- Runs a program in the place of the one that is running. -/
def runReplacement (again : Task → Action Unit) (name : Text) (call : Call) : Action Unit := do
  modify fun s => { s.replaced call.name with world := s.world.pass World.loadTime }
  if Utility.shells.contains name then runShell again call.arguments
  else if name = Utility.environmentName then runEnvironment again call.arguments
  else match Utility.find? name with
    | some utility => utility call.arguments
    | none => return ()
  throw .left

/-! ## Tasks -/

/-- The failure of the command ends a shell that has been told so. -/
def Command.isChecked : Command → Bool
  | .simple .. => true
  | .pipe _ => true
  | .subshell .. => true
  | .background .. => true
  | _ => false

/-- Leaves the shell if the command has failed and that is a reason. -/
def checkStatus (c : Command) (tested : Bool) : Action Unit := do
  let s ← get
  if c.isChecked && !tested && s.has 'e' && s.status ≠ 0 then
    set { s with leaving := none }
    throw .left

/-- Runs a command, with the traps on the signals that come before and after it. -/
def runCommand (again : Task → Action Unit) (c : Command) (tested final : Bool) : Action Unit := do
  if (← get).has 'n' then return ()
  else
    runTraps again
    let run := match c with
      | .simple line assignments words rs => invoke again tested final line assignments words rs
      | c => runCompound again tested final c
    match ← attempt run with
    | .ok _ => runTraps again
    | .error .returned => do
      checkStatus c tested
      throw .returned
    | .error e => throw e
    checkStatus c tested

/-- Does a task, given a way to do the tasks inside of it. -/
def step (again : Task → Action Unit) : Task → Action Unit
  | .command c tested final => runCommand again c tested final
  | .script t tested file => runScript again t tested file
  | .program name call => runReplacement again name call

/-- How deeply tasks can lie inside of each other. -/
def depthLimit : Nat := 12000

/-- Does a task. Programs that start each other without an end are stopped by the deadline, and anything
else that lies too deep has no room left. -/
def perform : Nat → Task → Action Unit
  | 0, .program .. => throw .late
  | 0, _ => throw (.killed 11)
  | n + 1, t => step (perform n) t

/-! ## Programs from the outside -/

/-- The directories, devices and programs that every machine has. -/
def baseTree : FileTree where
  entries :=
    [(["tmp".toList], .directory), (["dev".toList], .directory),
      (World.nullFile, .file [] false), (["usr".toList], .directory)]
      ++ Utility.directories.flatMap fun d =>
        (d, .directory) :: Utility.names.map fun name => (d ++ [name], .file [] true)

/-- What comes of running a program. -/
inductive ProgramResult
  | notStarted (message : Text)
  /-- The program was stopped at its deadline. -/
  | timedOut (output : Text)
  | exited (code : Nat) (output : Text)
deriving DecidableEq, Repr

namespace ProgramResult

/-- The program has succeeded. -/
def succeeded (r : ProgramResult) : Bool := r matches .exited 0 _

/-- What the program has written. -/
def output : ProgramResult → Text
  | notStarted _ => []
  | timedOut output => output
  | exited _ output => output

end ProgramResult

/-- The current directory of a machine is changed, unless the path is empty. -/
def changeDirectory (m : Machine) (directory : Text) : Except FileError Machine :=
  if directory.isEmpty then .ok m
  else do
    let l ← m.tree.locate directory
    match m.tree.at? l with
    | some .directory => .ok { m with tree := { m.tree with home := l } }
    | some _ => .error .notADirectory
    | none => .error .notFound

/-- The session of a program that is run from the outside. -/
def outerSession (m : Machine) (limit : Int) (name : Text) : Session :=
  let (number, world) := (World.start m limit).addProgram
  { world, number, root := number, name
    vars := m.environment.map fun v => (v.1, { value := some v.2, exported := true }) }

/-- Runs a command with a time limit in a directory; the empty path stands for the current one. The
program has run when it has ended and nobody can write any more of its output. -/
def runProgram (command : List Text) (timeout : Int) (directory : Text) (m : Machine) :
    ProgramResult × Machine :=
  match command with
  | [] => (.notStarted "empty command".toList, m)
  | name :: arguments =>
    let found := do
      let inner ← changeDirectory m directory
      return (inner, ← startFrom inner ⟨Path.visible name, arguments.map Path.visible⟩)
    match found with
    | .error cause =>
      (.notStarted ("cannot execute '".toList ++ name ++ "': ".toList ++ cause.message), m)
    | .ok (inner, program, call) =>
      if timeout ≤ 0 then (.timedOut [], m)
      else
        let again := perform depthLimit
        let (f, s) := life again (again (.program program call)) (outerSession inner timeout call.name)
        let deadline := s.world.deadline
        let time := min deadline (s.world.heldUntil World.outlet)
        let chunks := s.world.written World.outlet
        let machine := (s.world.setTree { s.world.tree with home := m.tree.home }).machineAt time
        let before := (chunks.filter fun c => c.time < deadline).flatMap (·.text)
        match f with
        | .late => (.timedOut before, machine)
        | f =>
          if deadline ≤ time then (.timedOut before, machine)
          else
            let code := match f with
              | .killed signal => 128 + signal
              | .exited status => status
              | .late => 0
            (.exited code (chunks.flatMap (·.text)), machine)

end Flatsheet.Shell
