import Flatsheet.Shell.Builtin
import Flatsheet.Shell.Channel
import Flatsheet.Shell.Program

/-!
# `Flatsheet.Shell.Task` — programs inside of programs

What a shell does is cut into tasks, since commands, functions, scripts and programs contain each other to
any depth. The actions here take how a task is done as a parameter.

## Contents

* `Task`
* `runTraps`, `finishShell`: traps on signals and at the end
* `Finish`, `life`, `apart`, `await`: subordinate programs
* `capture`: the output of a command
* `runLines`: the lines of a script
-/

namespace Flatsheet.Shell

open Text

/-- Something to be done. -/
inductive Task
  /-- A command. The failure of a `tested` one is no reason to leave the shell; after a `final` one there
  is nothing more to do in its program. -/
  | command (c : Command) (tested final : Bool)
  /-- The lines of a script, which are shown on demand if they come from a `file`. -/
  | script (t : Text) (tested file : Bool)
  /-- A program takes the place of the one that is running. -/
  | program (name : Text) (call : Call)

/-! ## Traps -/

/-- Does what the traps on signals say that have come, in the order of the signals. The status stays. -/
def runTraps (again : Task → Action Unit) : Action Unit := do
  let s ← get
  if s.pending.isEmpty then return ()
  else
    let status := s.leaving.getD s.status
    set { s with pending := [], leaving := some status }
    for signal in (List.range 65).filter s.pending.contains do
      match (← get).traps.lookup signal with
      | none => pure ()
      | some t =>
        match ← attempt (again (.script t false false)) with
        | .ok _ => setStatus status
        | .error e =>
          if e ≠ .left then modify fun now => { now with leaving := s.leaving }
          throw e
    modify fun now => { now with leaving := s.leaving }

/-- How a program ends. -/
inductive Finish
  | exited (status : Nat)
  | killed (signal : Nat)
  /-- It does not end before the deadline. -/
  | late
deriving DecidableEq, Repr

/-- The end of a program that ends early, if it ends by that. -/
def Finish.ofEnding? : Ending → Option Finish
  | .killed signal => some (.killed signal)
  | .late => some .late
  | _ => none

/-- How a shell ends after its last action. There may be a trap for that. -/
def finishShell (again : Task → Action Unit) (r : Except Ending Unit) : Action Finish := do
  match r.toOption, r with
  | none, .error (.killed signal) => return .killed signal
  | none, .error .late => return .late
  | _, _ =>
    let s ← get
    let status := match r with
      | .error .left => s.leaving.getD s.status
      | _ => s.status
    let trap := (s.traps.lookup 0).getD []
    set { s with status, leaving := some status, loops := 0, traps := s.traps.filter (·.1 ≠ 0) }
    if trap.isEmpty then return .exited (status % 256)
    else match ← attempt (again (.script trap false false)) with
      | .error .failed => return .exited ((← get).status % 256)
      | .error e =>
        let s ← get
        return (Finish.ofEnding? e).getD (.exited (s.leaving.getD s.status % 256))
      | .ok _ => return .exited (((← get).leaving.getD status) % 256)

/-! ## Subordinate programs -/

/-- What comes of a shell that does something in a session. -/
def life (again : Task → Action Unit) (a : Action Unit) (s : Session) : Finish × Session :=
  match Action.outcome (do finishShell again (← attempt a)) s with
  | (.ok f, s) => (f, s)
  | (.error e, s) => ((Finish.ofEnding? e).getD (.exited s.status), s)

/-- Something is done in a program of its own, whose session is the child of the current one with a
change. -/
def apart (again : Task → Action Unit) (change : Session → Session) (a : Action Unit) : Action Finish :=
  Action.of fun s =>
    let (f, inner) := life again a (change s.child)
    (.ok f, s.rejoin inner)

/-- A subordinate program has ended, and this one goes on. -/
def await : Finish → Action Unit
  | .exited status => do
    goOn
    report status none
  | .killed signal => do
    goOn
    report 0 (some signal)
  | .late => throw .late
where
  /-- The signals that have come in the meantime, and other programs that have ended, are noticed. -/
  goOn : Action Unit := do
    receive (← get).world.now
    Builtin.reap

/-- What a command writes, when nobody can write more. -/
def capture (again : Task → Action Unit) (c : Command) : Action Text := do
  let s ← get
  let (sink, world) := s.world.addStream (.sink [])
  set { s with world }
  let f ← apart again (·.setChannel 1 (some sink)) (again (.command c false true))
  if f = .late then throw .late
  waitUntil ((← get).world.heldUntil sink)
  let status := (← get).status
  await f
  modify fun now => { now with substituted := now.status, status }
  return ((← get).world.written sink).flatMap (·.text)

/-! ## Scripts -/

/-- The text that has been read between two states of a reader. -/
def readBetween (before after : Reader) : Text :=
  before.rest.take (before.rest.length - after.rest.length)

/-- Runs the lines of a script that are left, after some that have been run. -/
def runLines (again : Task → Action Unit) (tested file : Bool) : Nat → Bool → Reader → Action Unit
  | 0, _, _ => return ()
  | n + 1, any, r => do
    let s ← get
    let r := { r with aliases := s.aliases, number := s.documents.length, documents := [] }
    match (readNext r.depth).run r with
    | .error fault =>
      modify fun s => { s with line := fault.line }
      fail ("Syntax error: ".toList ++ fault.message)
    | .ok (next, after) =>
      if file && s.has 'v' then
        let _ ← write 2 (readBetween r after)
      modify fun s => { s with documents := after.documents ++ s.documents, readLine := after.line }
      match next with
      | .finish => if !any then setStatus 0
      | .nothing => runLines again tested file n any after
      | .commands list =>
        again (.command (.sequence list) tested false)
        runLines again tested file n true after

/-- Runs a script. -/
def runScript (again : Task → Action Unit) (t : Text) (tested file : Bool) : Action Unit := do
  let line := (← get).readLine
  let r ← attempt (runLines again tested file (t.length + 2) false { rest := t })
  modify fun s => { s with readLine := line }
  settle r

end Flatsheet.Shell
