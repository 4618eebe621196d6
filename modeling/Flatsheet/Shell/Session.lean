import Flatsheet.Shell.Arithmetic
import Flatsheet.Shell.Grammar
import Flatsheet.Shell.Stream

/-!
# `Flatsheet.Shell.Session` — a running shell

A session holds everything that a script can see and change. What it does is an action, which may end
early: the script leaves the shell, a loop or a function, is killed or runs past its deadline.

## Contents

* `Ending`, `Session`, `Action`
* `Session.value?`, `assign`: variables
* `write`, `complain`, `fail`: output and failures
* `child`, `Session.rejoin`: subordinate shells
* `waitUntil`, `takeInput`: time passes
-/

namespace Flatsheet.Shell

open Text

/-! ## Sessions and actions -/

/-- Why something ends early. -/
inductive Ending
  /-- So many loops are left. -/
  | broken (levels : Nat)
  /-- The next round of the loop so many levels up begins. -/
  | continued (levels : Nat)
  /-- The function or the script that was called is left. -/
  | returned
  /-- A failure of which there has been a message. -/
  | failed
  /-- The shell is left. -/
  | left
  | killed (signal : Nat)
  /-- The deadline has passed. -/
  | late
deriving DecidableEq, Repr

/-- A variable, whose value may be missing. -/
structure Variable where
  value : Option Text
  /-- Programs get to see it. -/
  exported : Bool := false
  readOnly : Bool := false
deriving Repr

/-- What has to be put back when a function or a command is left. -/
structure Backup where
  vars : List (Text × Option Variable) := []
  options : Option (List Char) := none

/-- The state of a shell. -/
structure Session where
  world : World
  /-- The number of the program. -/
  number : Nat := 0
  /-- The number of the shell that the script was given to. -/
  root : Nat := 0
  /-- The numbers of the programs that wait for this one. -/
  waiting : List Nat := []
  /-- The name of the script. -/
  name : Text := []
  arguments : List Text := []
  vars : List (Text × Variable) := []
  functions : List (Text × Command) := []
  aliases : List (Text × Text) := []
  /-- The letters of the options that are on. -/
  options : List Char := []
  /-- The streams that channels lead to. -/
  channels : List (Nat × Nat) := [(0, World.nowhere), (1, World.outlet), (2, World.outlet)]
  /-- The status of the last command; zero is success. -/
  status : Nat := 0
  /-- The status of the last substitution in the current command. -/
  substituted : Nat := 0
  /-- The line of the current command. -/
  line : Nat := 1
  /-- The line up to which the script has been read. -/
  readLine : Nat := 1
  /-- The builtin that is running. -/
  title : Option Text := none
  /-- The number of loops around the current command. -/
  loops : Nat := 0
  /-- The number of functions around the current command. -/
  calls : Nat := 0
  /-- What the functions that are running have to put back when they are left. -/
  frames : List Backup := []
  /-- What is done on signals; the signal zero is the end of the shell. -/
  traps : List (Nat × Text) := []
  /-- The signals that the program does not notice, since those who started it did not. -/
  deafTo : List Nat := []
  /-- The signals that have come and wait for their traps, latest first. -/
  pending : List Nat := []
  /-- The number of the last program that was started in the background. -/
  last : Option Nat := none
  /-- The documents of the script. -/
  documents : List (Nat × Word) := []
  /-- How far the options in an argument of a number have been read. -/
  optionPlace : Nat := 0
  optionIndex : Nat := 1
  /-- The status that the shell has been told to leave with. -/
  leaving : Option Nat := none
  /-- The permissions that new files lack. -/
  mask : Nat := 18

/-- What a shell does. -/
abbrev Action := ExceptT Ending (StateM Session)

/-- What comes of an action in a session. -/
def Action.outcome {α : Type} (a : Action α) (s : Session) : Except Ending α × Session := (a.run).run s

/-- The action does what happens to a session. -/
def Action.of {α : Type} (f : Session → Except Ending α × Session) : Action α := ExceptT.mk f

/-- What comes of an action that may end early. -/
def attempt {α : Type} (a : Action α) : Action (Except Ending α) :=
  Action.of fun s =>
    let (r, s) := a.outcome s
    (.ok r, s)

/-- The action ends as given. -/
def settle {α : Type} : Except Ending α → Action α
  | .ok a => return a
  | .error e => throw e

/-- The next commands see another status. -/
def setStatus (status : Nat) : Action Unit := modify fun s => { s with status }

/-! ## Variables -/

namespace Session

/-- The value of a variable, if it has one. -/
def value? (s : Session) (name : Text) : Option Text := (s.vars.lookup name).bind (·.value)

/-- The value of a variable, empty if it has none. -/
def value (s : Session) (name : Text) : Text := (s.value? name).getD []

/-- The variable must not be changed. -/
def isReadOnly (s : Session) (name : Text) : Bool := (s.vars.lookup name).any (·.readOnly)

/-- The option is on. -/
def has (s : Session) (option : Char) : Bool := s.options.contains option

/-- The variables with one of them replaced or left out. -/
def putVariable (s : Session) (name : Text) (v : Option Variable) : Session :=
  { s with vars := (v.toList.map (name, ·)) ++ s.vars.filter (·.1 ≠ name) }

/-- A variable gets a value. -/
def setValue (s : Session) (name value : Text) : Session :=
  let old := (s.vars.lookup name).getD { value := none }
  s.putVariable name (some { old with
    value := some value, exported := old.exported || s.has 'a' })

/-- The variables that programs get to see, with their values. -/
def environment (s : Session) : List (Text × Text) :=
  s.vars.filterMap fun (name, v) => if v.exported then v.value.map (name, ·) else none

/-- The bytes that separate words. -/
def separators (s : Session) : Text := (s.value? "IFS".toList).getD [' ', '\t', '\n']

/-- The stream that a channel leads to. -/
def stream? (s : Session) (channel : Nat) : Option Nat := s.channels.lookup channel

/-- A channel leads to another stream, or to none. -/
def setChannel (s : Session) (channel : Nat) (stream : Option Nat) : Session :=
  { s with channels := stream.toList.map (channel, ·) ++ s.channels.filter (·.1 ≠ channel) }

/-- The paths at which a program is looked for. -/
def places (s : Session) (name : Text) : List Text :=
  if name.contains '/' then [name]
  else (splitOn ':' ((s.value? "PATH".toList).getD [])).map fun d =>
    Path.join (if d.isEmpty then ['.'] else d) name

end Session

/-- Traps keep the shell from giving its place to another program. -/
def Session.hasTraps (s : Session) : Bool :=
  if s.number = s.root then !s.traps.isEmpty else s.traps.any fun t => !t.2.isEmpty

/-! ## Output and failures -/

/-- Writes to a channel, and tells whether that was possible. -/
def write (channel : Nat) (t : Text) : Action Bool := do
  let s ← get
  match (s.stream? channel).bind fun n => s.world.write? s.number n t with
  | some world =>
    set { s with world }
    return true
  | none => return t.isEmpty

/-- A message on the channel for failures, with the name of the script, the line, and the builtin that is
running. -/
def complain (message : Text) : Action Unit := do
  let s ← get
  let title := match s.title with
    | some t => t ++ ": ".toList
    | none => []
  let _ ← write 2 (s.name ++ ": ".toList ++ ofNat s.line ++ ": ".toList ++ title ++ message ++ ['\n'])

/-- A failure with a message. -/
def fail {α : Type} (message : Text) : Action α := do
  complain message
  setStatus 2
  throw .failed

/-- A variable gets a value, unless it must not be changed. -/
def assign (name value : Text) : Action Unit := do
  let s ← get
  if !isName name then fail (name ++ ": bad variable name".toList)
  else if s.isReadOnly name then fail (name ++ ": is read only".toList)
  else set (s.setValue name value)

/-! ## Time -/

/-- The signals that a program gets up to a time, and the world without them. -/
def World.takePosted (w : World) (number : Nat) (time : Int) : List (Int × Nat × Nat) × World :=
  let (mine, others) := w.posted.partition fun p => p.2.1 = number && p.1 ≤ time
  (mine, { w with posted := others })

/-- Receives the signals that have come up to a time. A signal without a trap kills at its time, and one
with an empty trap does nothing. -/
def receive (time : Int) : Action Unit := do
  let s ← get
  let (mine, world) := s.world.takePosted s.number time
  set { s with world }
  for (moment, _, signal) in mine do
    let now ← get
    match if now.deafTo.contains signal then some [] else now.traps.lookup signal with
    | some [] => pure ()
    | some _ => modify fun s => { s with pending := signal :: s.pending }
    | none =>
      modify fun s => { s with world := s.world.setTime (max s.world.now moment) }
      throw (.killed signal)

/-- Time passes up to a point, but not beyond the deadline. -/
def waitUntil (time : Int) : Action Unit := do
  let s ← get
  if time ≤ s.world.now then return ()
  else
    receive (min time s.world.deadline)
    let s ← get
    if s.world.deadline ≤ time then
      set { s with world := s.world.setTime s.world.deadline }
      throw .late
    else set { s with world := s.world.setTime time }

/-- Takes what a reader finds in the stream of a channel, when it is there; nothing if the channel cannot
be read. -/
def takeInput (channel : Nat) (find : World → Nat → Option (Text × Int × World)) :
    Action (Option Text) := do
  let s ← get
  match (s.stream? channel).bind (find s.world) with
  | none => return none
  | some (t, time, world) =>
    set { s with world }
    waitUntil time
    return some t

/-! ## Subordinate shells -/

/-- The session of a subordinate shell. Of the traps, only the empty ones remain. -/
def Session.child (s : Session) : Session :=
  let (number, world) := (s.world.pass World.splitTime).addProgram
  { s with
    world, number, waiting := s.number :: s.waiting, readLine := 1
    traps := s.traps.filter (·.2.isEmpty), pending := [] }

/-- The session after a subordinate shell, of which only what they share remains. -/
def Session.rejoin (s inner : Session) : Session :=
  { s with world := inner.world.setTree { inner.world.tree with home := s.world.tree.home } }

/-- The signal that an ending stands for. -/
def Ending.signal? : Ending → Option Nat
  | killed signal => some signal
  | _ => none

/-- The signals with their names. -/
def signalNames : List (Nat × String) :=
  [(0, "EXIT"), (1, "HUP"), (2, "INT"), (3, "QUIT"), (4, "ILL"), (5, "TRAP"), (6, "ABRT"), (7, "BUS"),
    (8, "FPE"), (9, "KILL"), (10, "USR1"), (11, "SEGV"), (12, "USR2"), (13, "PIPE"), (14, "ALRM"),
    (15, "TERM"), (16, "STKFLT"), (17, "CHLD"), (18, "CONT"), (19, "STOP"), (20, "TSTP"), (21, "TTIN"),
    (22, "TTOU"), (23, "URG"), (24, "XCPU"), (25, "XFSZ"), (26, "VTALRM"), (27, "PROF"), (28, "WINCH"),
    (29, "IO"), (30, "PWR"), (31, "SYS")]

/-- What is written about a program that a signal has killed, if anything. -/
def signalReport? (signal : Nat) : Option String :=
  [(1, "Hangup"), (3, "Quit"), (4, "Illegal instruction"), (5, "Trace/breakpoint trap"), (6, "Aborted"),
    (7, "Bus error"), (8, "Floating point exception"), (9, "Killed"), (10, "User defined signal 1"),
    (11, "Segmentation fault"), (12, "User defined signal 2"), (14, "Alarm clock"), (15, "Terminated"),
    (16, "Stack fault"), (24, "CPU time limit exceeded"), (25, "File size limit exceeded"),
    (26, "Virtual timer expired"), (27, "Profiling timer expired"), (29, "I/O possible"),
    (30, "Power failure"), (31, "Bad system call")].lookup signal

/-- A program has ended with a status or by a signal; the latter is reported. -/
def report (status : Nat) (signal : Option Nat) : Action Unit := do
  match signal with
  | none => setStatus status
  | some n =>
    match signalReport? n with
    | some m => let _ ← write 2 (m.toList ++ ['\n'])
    | none => pure ()
    setStatus (128 + n)

end Flatsheet.Shell
