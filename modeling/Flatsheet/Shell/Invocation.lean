import Flatsheet.Shell.Task

/-!
# `Flatsheet.Shell.Invocation` — simple commands

A simple command makes assignments and redirections, and runs what its first word names: a function, a
builtin or a program.

## Contents

* `Invocation`, `Invocation.ofWords`: the words of a command, and what the first one names
* `runFunction`, `runBuiltin`, `runProgramOf`
* `evaluateScript`, `sourceScript`, `replaceShell`, `describeNames`: builtins that run commands or look for
  them
* `invoke`: a simple command
-/

namespace Flatsheet.Shell

open Text

/-! ## Words -/

/-- The expanded words of a command, the words that are still to be expanded, and what is known about the
command. -/
structure Invocation where
  fields : List Text := []
  rest : List Word := []
  /-- The word `command` and its options, which come first and are not needed any more. -/
  dropped : List Text := []
  /-- Functions do not count. -/
  unmasked : Bool := false
  /-- Programs are looked for in the usual places only. -/
  usual : Bool := false

namespace Invocation

/-- Expands words until there is a further field, if there can be one. -/
def extend (output : Command → Action Text) (fields : List Text) :
    List Word → Action (List Text × List Word)
  | [] => return (fields, [])
  | w :: ws => do
    let more ← expandWord output w
    if more.isEmpty then extend output fields ws else return (fields ++ more, ws)

/-- The invocation without `command` and its options; nothing if `command` itself has something to say. -/
def behindCommand (output : Command → Action Text) : Nat → Invocation → Action (Option Invocation)
  | 0, _ => return none
  | n + 1, i => do
    let (fields, rest) ← if i.fields.isEmpty then extend output [] i.rest else pure (i.fields, i.rest)
    let i := { i with fields, rest }
    match fields with
    | [] => return none
    | a :: as =>
      if a = ['-', '-'] then
        let (fields, rest) ← if as.isEmpty then extend output [] rest else pure (as, rest)
        return if fields.isEmpty then none
          else some { i with fields, rest, dropped := i.dropped ++ [a] }
      else match a with
        | '-' :: c :: cs =>
          if (c :: cs).all (· = 'p') then
            behindCommand output n { i with fields := as, dropped := i.dropped ++ [a], usual := true }
          else return none
        | _ => return some i

/-- The invocation behind all words `command`. -/
def settled (output : Command → Action Text) : Nat → Invocation → Action Invocation
  | 0, i => return i
  | n + 1, i => do
    match i.fields with
    | name :: fields =>
      let masked := !i.unmasked && ((← get).functions.lookup name).isSome
      if name = "command".toList && !masked then
        match ← behindCommand output 1000 { i with fields, dropped := i.dropped ++ [name] } with
        | some inner => settled output n { inner with unmasked := true }
        | none => return i
      else return i
    | [] => return i

/-- Builtins whose arguments can be assignments, in which nothing is split. -/
def assigning : List Text := ["alias", "export", "local", "readonly"].map String.toList

/-- Expands a word that is an assignment if it looks like one. -/
def expandAssigning (output : Command → Action Text) (w : Word) : Action (List Text) := do
  match assignment? w with
  | some (name, value) => return [name ++ '=' :: (← expandValue output value)]
  | none => expandWord output w

/-- The name of the command. -/
def name (i : Invocation) : Text := i.fields.headD []

/-- The body of the function that the command is. -/
def function? (s : Session) (i : Invocation) : Option Command :=
  if i.unmasked || i.fields.isEmpty then none else s.functions.lookup i.name

/-- The command is a builtin. -/
def isBuiltin (s : Session) (i : Invocation) : Bool :=
  (i.function? s).isNone && !i.fields.isEmpty && Builtin.isKnown i.name

/-- The command is a builtin of the kind whose failures are fatal and whose assignments stay. -/
def isSpecial (s : Session) (i : Invocation) : Bool :=
  i.dropped.isEmpty && i.isBuiltin s && specialBuiltins.contains i.name

/-- The expanded words of a command. -/
def ofWords (output : Command → Action Text) (ws : List Word) : Action Invocation := do
  let (fields, rest) ← extend output [] ws
  let i ← settled output 1000 { fields, rest }
  let s ← get
  let assigns := i.isBuiltin s && assigning.contains i.name
  let more ← if assigns then pure (← i.rest.mapM (expandAssigning output)).flatten
    else expandWords output i.rest
  return { i with fields := i.fields ++ more, rest := [] }

end Invocation

/-! ## Functions, builtins and programs -/

/-- How many functions can be inside of each other. -/
def callLimit : Nat := 1000

/-- Runs a function with arguments of its own. -/
def runFunction (again : Task → Action Unit) (tested : Bool) (body : Command) (arguments : List Text) :
    Action Unit := do
  let before ← get
  if callLimit ≤ before.calls then
    fail ("Maximum function recursion depth (".toList ++ ofNat callLimit ++ ") reached".toList)
  set { before with
    arguments, calls := before.calls + 1, loops := 0, optionPlace := 0, optionIndex := 1 }
  let r ← attempt (again (.command body tested false))
  modify fun s => { s with
    arguments := before.arguments, calls := before.calls, loops := before.loops
    optionPlace := before.optionPlace, optionIndex := before.optionIndex }
  match r with
  | .error .returned => return ()
  | r => settle r

/-- Runs a builtin, whose name stands in messages. Only the failures of a special one go on. -/
def runBuiltin (special : Bool) (name : Text) (a : Action Unit) : Action Unit := do
  let before := (← get).title
  modify fun s => { s with title := some name }
  let r ← attempt a
  modify fun s => { s with title := before }
  match r with
  | .error .failed => if special then throw .failed
  | r => settle r

/-- The words of a shell for the reason why a program cannot be started, and the status. -/
def startFailure (name : Text) (cause : FileError) : Text × Nat :=
  if isAbsence cause then (name ++ ": not found".toList, 127)
  else (name ++ ": ".toList ++ cause.message,
    if cause = .tooManyLinks || cause = .nameTooLong then 127 else 126)

/-- The paths at which a shell looks for a program. -/
def Session.placesFor (s : Session) (usual : Bool) (name : Text) : List Text :=
  if usual && !name.contains '/' then
    ["/usr/sbin", "/usr/bin", "/sbin", "/bin"].map fun d => Path.join d.toList name
  else s.places name

/-- The program of a call takes the place of the shell, or the shell is left with a message. -/
def become (again : Task → Action Unit) (usual : Bool) (call : Call) : Action Unit := do
  let s ← get
  match startAmong s.world.tree call (fun _ => false) .notFound (s.placesFor usual call.name) with
  | .ok (name, call) => again (.program name call)
  | .error cause =>
    let (message, status) := startFailure call.name cause
    complain message
    setStatus status
    throw .left

/-- Runs the program of a call. If nothing follows, the program takes the place of the shell. -/
def runProgramOf (again : Task → Action Unit) (final usual : Bool) (call : Call) : Action Unit := do
  let s ← get
  let found :=
    if call.name.contains '/' then .ok call.name
    else executable? s.world.tree .notFound (s.placesFor usual call.name)
  match found with
  | .error cause =>
    complain (startFailure call.name cause).1
    setStatus 127
  | .ok _ =>
    if final && !s.hasTraps then become again usual call
    else await (← apart again id (become again usual call))

/-! ## Builtins that run commands or look for them -/

/-- `eval`. -/
def evaluateScript (again : Task → Action Unit) (tested : Bool) (as : List Text) : Action Unit :=
  if as.isEmpty then setStatus 0
  else again (.script (List.intercalate [' '] as) tested false)

/-- The path of a script that is looked for like a program, but need not be one. -/
def scriptPath (name : Text) : Action Text := do
  let s ← get
  if name.contains '/' then return name
  else match (s.places name).find? s.world.tree.isFile with
    | some path => return path
    | none => fail (name ++ ": not found".toList)

/-- The text of a script in a file. -/
def readScript (path : Text) : Action Text := do
  let s ← get
  match s.world.openFile path .read false with
  | .error cause => fail (openingFailure .read false path cause)
  | .ok _ => return ((s.world.tree.read path).toOption.getD []).filter (· ≠ '\x00')

/-- `.`, which runs a script in the shell itself. -/
def sourceScript (again : Task → Action Unit) (as : List Text) : Action Unit := do
  match ← Builtin.operands as with
  | [] => setStatus 0
  | name :: _ =>
    let path ← scriptPath name
    let t ← readScript path
    modify fun s => { s with title := some path }
    match ← attempt (again (.script t false true)) with
    | .error .returned => return ()
    | r => settle r

/-- `exec`. -/
def replaceShell (again : Task → Action Unit) (as : List Text) : Action Unit := do
  match as with
  | [] => setStatus 0
  | name :: as => become again false ⟨name, as⟩

/-- What a name stands for, in a sentence or as a word that can be used instead; nothing if it stands for
nothing. -/
def describe? (s : Session) (sentence usual : Bool) (name : Text) : Option Text :=
  let said (m : String) : Text := if sentence then name ++ m.toList else name
  if reservedWords.contains name then some (said " is a shell keyword")
  else match s.aliases.lookup name, s.functions.lookup name with
    | some t, _ =>
      some (if sentence then name ++ " is an alias for ".toList ++ t
        else "alias ".toList ++ name ++ '=' :: Builtin.quotedText t)
    | none, some _ => some (said " is a shell function")
    | none, none =>
      if Builtin.isKnown name then
        some (said (if specialBuiltins.contains name then " is a special shell builtin"
          else " is a shell builtin"))
      else
        let found :=
          if name.contains '/' then (if s.world.tree.present name then some name else none)
          else (executable? s.world.tree .notFound (s.placesFor usual name)).toOption
        found.map fun path => if sentence then name ++ " is ".toList ++ path else path

/-- Says what names stand for. -/
def describeNames (sentence usual : Bool) (names : List Text) : Action Unit := do
  setStatus 0
  let mut failed := false
  for name in names do
    match describe? (← get) sentence usual name with
    | some t => Builtin.output (t ++ ['\n'])
    | none =>
      if sentence then Builtin.output (name ++ ": not found\n".toList)
      failed := true
  if failed then setStatus 127

/-- `command`, when it describes. -/
def describeCommand (as : List Text) : Action Unit := do
  let (os, names) ← Builtin.options "pvV" as
  let has (c : Char) : Bool := os.any fun o => o.1 = c
  if has 'v' || has 'V' then describeNames (has 'V') (has 'p') (names.take 1)
  else setStatus 0

/-- `hash`. -/
def rememberNames (as : List Text) : Action Unit := do
  let (_, names) ← Builtin.options "r" as
  setStatus 0
  let mut failed := false
  for name in names do
    let s ← get
    if !Builtin.isKnown name && (s.functions.lookup name).isNone then
      match executable? s.world.tree .notFound (s.places name) with
      | .ok _ => pure ()
      | .error cause =>
        complain (startFailure name cause).1
        failed := true
  if failed then setStatus 1

/-- What a builtin does. -/
def builtinAction (again : Task → Action Unit) (tested : Bool) (name : Text) (as : List Text) :
    Action Unit :=
  match Builtin.find? name with
  | some action => action as
  | none =>
    match String.ofList name with
    | "." => sourceScript again as
    | "command" => describeCommand as
    | "eval" => evaluateScript again tested as
    | "exec" => replaceShell again as
    | "hash" => rememberNames as
    | _ => describeNames true false as

/-! ## Simple commands -/

/-- Makes assignments. The ones for a command alone are put back when it is done. -/
def makeAssignments (output : Command → Action Text) (alone exported : Bool) (ws : List Word) :
    Action (List (Text × Text)) :=
  ws.filterMapM fun w => do
    match assignment? w with
    | none => return none
    | some (name, value) =>
      let t ← expandValue output value
      if alone then Builtin.saveVariable name
      assign name t
      if alone || exported then
        modify fun s => { s with vars := s.vars.map fun v =>
          if v.1 = name then (name, { v.2 with exported := true }) else v }
      return some (name, t)

/-- Puts back what the last function or command has changed. -/
def leaveFrame : Action Unit := modify fun s =>
  match s.frames with
  | [] => s
  | f :: fs =>
    let s := f.vars.foldl (fun s (name, v) => s.putVariable name v) s
    { s with frames := fs, options := f.options.getD s.options }

/-- An action with a frame of its own. -/
def inFrame (a : Action Unit) : Action Unit := do
  modify fun s => { s with frames := {} :: s.frames }
  let r ← attempt a
  leaveFrame
  settle r

/-- What stands before a command that is shown. -/
def traceMark (output : Command → Action Text) : Action Text := do
  let t := (← get).value "PS4".toList
  if t.all fun c => c ≠ '$' && c ≠ '\\' && c ≠ '\x60' then return t
  else match readText t with
    | .error _ => return t
    | .ok w =>
      modify fun s => { s with options := s.options.filter (· ≠ 'x') }
      let r ← attempt (expandDocument output w)
      modify fun s => { s with options := 'x' :: s.options }
      settle r

/-- Shows a command before it runs, on the stream that failures went to before its redirections. -/
def trace (output : Command → Action Text) (stream : Option Nat) (assigned : List (Text × Text))
    (words : List Text) : Action Unit := do
  let mark ← traceMark output
  let shown := assigned.map (fun a => a.1 ++ '=' :: a.2) ++ words
  modify fun s =>
    match stream.bind fun n => s.world.write? s.number n (mark ++ List.intercalate [' '] shown ++ ['\n']) with
    | some world => { s with world }
    | none => s

/-- Runs what the words of a command name. -/
def runNamed (again : Task → Action Unit) (tested final : Bool) (i : Invocation) : Action Unit := do
  let s ← get
  let as := i.fields.tail
  match i.function? s with
  | some body => runFunction again tested body as
  | none =>
    if i.fields.isEmpty then setStatus s.substituted
    else if i.isBuiltin s then
      runBuiltin (i.isSpecial s) i.name (builtinAction again tested i.name as)
    else runProgramOf again final i.usual ⟨i.name, as⟩

/-- Runs a simple command. -/
def invoke (again : Task → Action Unit) (tested final : Bool) (line : Nat) (assignments words : List Word)
    (rs : List Redirection) : Action Unit := do
  modify fun s => { s with line, substituted := 0 }
  let output := capture again
  let i ← Invocation.ofWords output words
  let s ← get
  let special := i.isSpecial s
  let replaces := i.isBuiltin s && i.name = "exec".toList
  let alone := !i.fields.isEmpty && !special
  let action : Action Unit := do
    let assigned ← makeAssignments output alone (replaces && 1 < i.fields.length) assignments
    if (← get).has 'x' then trace output (s.stream? 2) assigned (i.dropped ++ i.fields)
    runNamed again tested final i
  let instead : Action Unit := if special then throw .failed else return ()
  -- Nothing is put back where the program takes the place of the shell.
  let stay := replaces
    || (final && !s.hasTraps && !i.fields.isEmpty && !i.isBuiltin s && (i.function? s).isNone)
  let whole := redirectWhile output stay rs action instead
  if alone then inFrame whole else whole

end Flatsheet.Shell
