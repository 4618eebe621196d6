import Flatsheet.Shell.Builtin.Basic

/-!
# `Flatsheet.Shell.Builtin.Variables` — builtins for variables, options and aliases

## Contents

* `exportNames`, `protect`, `unset`, `localNames`: variables
* `setOptions`: the options and the arguments of the shell, which `switchAll` reads
* `defineAliases`, `removeAliases`
-/

namespace Flatsheet.Shell.Builtin

open Text

/-! ## Variables -/

/-- The value of a variable as a command that sets it. -/
def shown (word : String) (name : Text) (v : Variable) : Text :=
  word.toList ++ ' ' :: name ++ (match v.value with
    | some t => '=' :: quotedText t
    | none => []) ++ ['\n']

/-- The variables of a kind as commands that set them, by name. -/
def listVariables (word : String) (p : Variable → Bool) : Action Unit := do
  let s ← get
  let found := (s.vars.filter fun v => p v.2).mergeSort fun a b => inOrder a.1 b.1
  output (found.flatMap fun v => shown word v.1 v.2)

/-- The name before the first equals sign, and the value behind it. -/
def splitAssignment (a : Text) : Text × Option Text :=
  let name := a.takeWhile (· ≠ '=')
  (name, if name.length < a.length then some (a.drop (name.length + 1)) else none)

/-- Gives variables a mark, after their values. -/
def markVariables (word : String) (p : Variable → Bool) (mark : Variable → Variable)
    (as : List Text) : Action Unit := do
  let (os, as) ← options "p" as
  if as.isEmpty || !os.isEmpty then listVariables word p
  else
    for a in as do
      let (name, value) := splitAssignment a
      if !isName name then fail (name ++ ": bad variable name".toList)
      match value with
      | some t => assign name t
      | none => pure ()
      modify fun s =>
        s.putVariable name (some (mark ((s.vars.lookup name).getD { value := none })))
    setStatus 0

/-- `export`. -/
def exportNames : List Text → Action Unit :=
  markVariables "export" (·.exported) fun v => { v with exported := true }

/-- `readonly`. -/
def protect : List Text → Action Unit :=
  markVariables "readonly" (·.readOnly) fun v => { v with readOnly := true }

/-- `unset`. -/
def unset (as : List Text) : Action Unit := do
  let (os, as) ← options "vf" as
  let functions := (os.getLast?.map (·.1)) = some 'f'
  for name in as do
    let s ← get
    if functions then
      set { s with functions := s.functions.filter (·.1 ≠ name) }
    else if !isName name then fail (name ++ ": bad variable name".toList)
    else if s.isReadOnly name then fail (name ++ ": is read only".toList)
    else set (s.putVariable name none)
  setStatus 0

/-- The variable is put back when the function is left. -/
def saveVariable (name : Text) : Action Unit := modify fun s =>
  match s.frames with
  | f :: fs => { s with frames :=
      { f with vars := (name, s.vars.lookup name) :: f.vars } :: fs }
  | [] => s

/-- So are the options. -/
def saveOptions : Action Unit := modify fun s =>
  match s.frames with
  | f :: fs => { s with frames := { f with options := some (f.options.getD s.options) } :: fs }
  | [] => s

/-- `local`. -/
def localNames (as : List Text) : Action Unit := do
  if (← get).frames.isEmpty then fail "not in a function".toList
  else
    for a in as do
      let (name, value) := splitAssignment a
      if a = ['-'] then saveOptions
      else
        if !isName name then fail (name ++ ": bad variable name".toList)
        saveVariable name
        match value with
        | some t => assign name t
        | none => pure ()
    setStatus 0

/-- `set` without arguments. -/
def listAll : Action Unit := do
  let s ← get
  let found := (s.vars.filter fun v => v.2.value.isSome).mergeSort fun a b => inOrder a.1 b.1
  output (found.flatMap fun v => v.1 ++ '=' :: quotedText (v.2.value.getD []) ++ ['\n'])

/-! ## Options of the shell -/

/-- The options with their letters. Some have none. -/
def optionNames : List (String × Option Char) :=
  [("errexit", some 'e'), ("noglob", some 'f'), ("ignoreeof", some 'I'), ("interactive", some 'i'),
    ("monitor", some 'm'), ("noexec", some 'n'), ("stdin", some 's'), ("xtrace", some 'x'),
    ("verbose", some 'v'), ("vi", some 'V'), ("emacs", some 'E'), ("noclobber", some 'C'),
    ("allexport", some 'a'), ("notify", some 'b'), ("nounset", some 'u'), ("privileged", some 'p'),
    ("nolog", none), ("debug", none)]

/-- An option is switched on or off. -/
def switch (c : Char) (on : Bool) : Action Unit := do
  if optionNames.any fun o => o.2 = some c then
    modify fun s => { s with options :=
      (if on then [c] else []) ++ s.options.filter (· ≠ c) }
  else fail ("Illegal option ".toList ++ [if on then '-' else '+', c])

/-- An option is switched on or off by its name; without a name the options are shown. -/
def switchName (name : Option Text) (on : Bool) : Action Unit := do
  let s ← get
  let isOn (o : String × Option Char) : Bool := o.2.any s.has
  let pad (t : Text) : Text := t ++ List.replicate (16 - t.length) ' '
  match name with
  | none =>
    if on then
      output ("Current option settings\n".toList ++ optionNames.flatMap fun o =>
        pad o.1.toList ++ (if isOn o then "on\n" else "off\n").toList)
    else
      output (optionNames.flatMap fun o =>
        (if isOn o then "set -o " else "set +o ").toList ++ o.1.toList ++ ['\n'])
  | some t =>
    match optionNames.find? fun o => o.1.toList = t with
    | some (_, some c) => switch c on
    | some (_, none) => pure ()
    | none => fail ("Illegal option ".toList ++ (if on then '-' else '+') :: "o ".toList ++ t)

/-- The letters of one argument; the rest of the arguments, of which the letter `o` takes one. The letter
`c` of a command line asks for a script. -/
def switchLetters (on commandLine : Bool) : Text → List Text → Action (List Text × Bool)
  | [], as => return (as, false)
  | 'o' :: cs, as => do
    switchName as.head? on
    switchLetters on commandLine cs as.tail
  | c :: cs, as => do
    if commandLine && c = 'c' then return ((← switchLetters on commandLine cs as).1, true)
    else
      if !(commandLine && c = 'l') then switch c on
      switchLetters on commandLine cs as

/-- The options of a shell before its arguments: the arguments, whether they shall replace the old ones
though there are none, and whether a script is asked for. -/
def switchAll (commandLine : Bool) : Nat → List Text → Action (List Text × Bool × Bool)
  | 0, as => return (as, false, false)
  | _ + 1, [] => return ([], false, false)
  | n + 1, a :: as => do
    match a with
    | ['-'] =>
      if !commandLine then
        modify fun s => { s with options := s.options.filter fun c => c ≠ 'x' && c ≠ 'v' }
      return (as, false, false)
    | ['-', '-'] => return (as, !commandLine, false)
    | '-' :: cs =>
      let (as, script) ← switchLetters true commandLine cs as
      let (rest, reset, more) ← switchAll commandLine n as
      return (rest, reset, script || more)
    | '+' :: cs =>
      let (as, script) ← switchLetters false commandLine cs as
      let (rest, reset, more) ← switchAll commandLine n as
      return (rest, reset, script || more)
    | _ => return (a :: as, false, false)

/-- `set`. -/
def setOptions (as : List Text) : Action Unit := do
  if as.isEmpty then listAll
  else
    setStatus 0
    let (rest, reset, _) ← switchAll false (as.length + 1) as
    if reset || !rest.isEmpty then
      modify fun s => { s with arguments := rest, optionPlace := 0 }

/-! ## Aliases -/

/-- An alias as an assignment. -/
def shownAlias (a : Text × Text) : Text := a.1 ++ '=' :: quotedText a.2 ++ ['\n']

/-- The place of an alias in the list of all. -/
def aliasPlace (name : Text) : Nat :=
  (match name with
    | [] => 0
    | c :: _ => 16 * c.toNat + name.foldl (· + ·.toNat) 0) % 39

/-- `alias`. -/
def defineAliases (as : List Text) : Action Unit := do
  setStatus 0
  if as.isEmpty then
    let found := (← get).aliases.mergeSort fun a b => aliasPlace a.1 ≤ aliasPlace b.1
    output (found.flatMap shownAlias)
  else
    let mut failed := false
    for a in as do
      let s : Session ← get
      match splitAssignment a with
      | (name, some value) =>
        set { s with aliases := (s.aliases.filter fun a : Text × Text => a.1 ≠ name) ++ [(name, value)] }
      | (name, none) =>
        match s.aliases.lookup name with
        | some value => output (shownAlias (name, value))
        | none =>
          warn ("alias: ".toList ++ name ++ " not found".toList)
          failed := true
    setStatus (if failed then 1 else 0)

/-- `unalias`. -/
def removeAliases (as : List Text) : Action Unit := do
  let (os, as) ← options "a" as
  setStatus 0
  if !os.isEmpty then modify fun s => { s with aliases := [] }
  else
    let mut failed := false
    for name in as do
      let s : Session ← get
      if (s.aliases.lookup name).isSome then
        set { s with aliases := s.aliases.filter (·.1 ≠ name) }
      else
        warn ("unalias: ".toList ++ name ++ " not found".toList)
        failed := true
    setStatus (if failed then 1 else 0)

end Flatsheet.Shell.Builtin
