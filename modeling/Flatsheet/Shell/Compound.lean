import Flatsheet.Shell.Task

/-!
# `Flatsheet.Shell.Compound` — commands made of commands

## Contents

* `runSequence`, `runChoice`, `runBranches`
* `repeatWhile`, `repeatFor`: loops
* `runSubshell`, `runBackground`, `runPipe`: programs of their own
* `runCompound`: all of them
-/

namespace Flatsheet.Shell

open Text

/-! ## Sequences and choices -/

/-- Runs commands one after the other. -/
def runSequence (again : Task → Action Unit) (tested final : Bool) : List Command → Action Unit
  | [] => return ()
  | [c] => again (.command c tested final)
  | c :: cs => do
    again (.command c tested false)
    runSequence again tested final cs

/-- Runs the first command whose failure does not matter, and then, depending on its status, the second
one. -/
def runBoth (again : Task → Action Unit) (tested final wanted : Bool) (a b : Command) : Action Unit := do
  again (.command a true false)
  if ((← get).status = 0) = wanted then again (.command b tested final)

/-- Runs one of two commands. -/
def runChoice (again : Task → Action Unit) (tested final : Bool) (condition yes : Command)
    (no : Option Command) : Action Unit := do
  again (.command condition true false)
  if (← get).status = 0 then again (.command yes tested final)
  else match no with
    | some c => again (.command c tested final)
    | none => setStatus 0

/-- A text matches one of some patterns, which are expanded one by one. -/
def matchesAny (output : Command → Action Text) (t : Text) : List Word → Action Bool
  | [] => return false
  | w :: ws => do
    if (← expandPattern output w).matchesText t then return true else matchesAny output t ws

/-- Runs the first branch of which a pattern matches. -/
def runBranches (again : Task → Action Unit) (tested final : Bool) (t : Text) :
    List (List Word × Option Command) → Action Unit
  | [] => setStatus 0
  | (patterns, body) :: rest => do
    if ← matchesAny (capture again) t patterns then
      match body with
      | some c => again (.command c tested final)
      | none => setStatus 0
    else runBranches again tested final t rest

/-! ## Loops -/

/-- How often a loop goes round at most before its deadline. -/
def roundLimit : Nat := 100000

/-- What a part of a loop has come to: the loop goes on, its next round begins, or it is left. -/
inductive Turn
  | onward
  | nextRound
  | out
  | ended (e : Ending)

/-- What a part of a loop has come to. -/
def Turn.of : Except Ending Unit → Turn
  | .ok _ => .onward
  | .error (.broken n) => if n ≤ 1 then .out else .ended (.broken (n - 1))
  | .error (.continued n) => if n ≤ 1 then .nextRound else .ended (.continued (n - 1))
  | .error e => .ended e

/-- Runs a body as long as a condition allows it. The status is the one of the last body. -/
def repeatWhile (condition body : Action Unit) (inverted : Bool) :
    Nat → Nat → Session → Except Ending Unit × Session
  | 0, _, s => (waitUntil s.world.deadline).outcome s
  | n + 1, last, s =>
    let (r, s) := condition.outcome s
    match Turn.of r with
    | .ended e => (.error e, s)
    | .out => (.ok (), { s with status := last })
    | .nextRound => repeatWhile condition body inverted n last s
    | .onward =>
      if (s.status = 0) = inverted then (.ok (), { s with status := last })
      else
        let (r, s) := body.outcome s
        match Turn.of r with
        | .ended e => (.error e, s)
        | .out => (.ok (), s)
        | .nextRound => repeatWhile condition body inverted n s.status s
        | .onward => repeatWhile condition body inverted n s.status s

/-- Runs a body for each item of a list. -/
def repeatFor (line : Nat) (name : Text) (body : Action Unit) :
    List Text → Session → Except Ending Unit × Session
  | [], s => (.ok (), s)
  | item :: items, s =>
    match (assign name item).outcome { s with line } with
    | (.error e, s) => (.error e, s)
    | (.ok _, s) =>
      let (r, s) := body.outcome s
      match Turn.of r with
      | .ended e => (.error e, s)
      | .out => (.ok (), s)
      | .nextRound => repeatFor line name body items s
      | .onward => repeatFor line name body items s

/-- A loop around an action. -/
def inLoop (a : Action Unit) : Action Unit := do
  modify fun s => { s with loops := s.loops + 1 }
  let r ← attempt a
  modify fun s => { s with loops := s.loops - 1 }
  settle r

/-! ## Programs of their own -/

/-- Runs a command in a subordinate shell. If nothing follows, the shell itself becomes that. -/
def runSubshell (again : Task → Action Unit) (tested final : Bool) (line : Nat) (body : Command)
    (rs : List Redirection) : Action Unit := do
  modify fun s => { s with line }
  let ds ← rs.mapM (prepare (capture again))
  let action : Action Unit := do
    redirectForGood ds
    again (.command body tested true)
  if final && !(← get).hasTraps then
    action
    throw .left
  else await (← apart again id action)

/-- The signals that programs in the background do not notice. -/
def unnoticed : List Nat := [2, 3]

/-- Runs a command in the background. All of it happens at once, but at times of its own. -/
def runBackground (again : Task → Action Unit) (line : Nat) (body : Command) (rs : List Redirection) :
    Action Unit := do
  modify fun s => { s with line }
  let ds ← rs.mapM (prepare (capture again))
  let s ← get
  let inner := s.child
  let action : Action Unit := do
    redirectForGood ds
    again (.command body false true)
  let (f, after) := life again action
    ({ inner with deafTo := unnoticed ++ inner.deafTo }.setChannel 0 (some World.nowhere))
  let (status, signal) := match f with
    | .exited n => (n, none)
    | .killed n => (0, some n)
    | .late => (0, none)
  let p : Process :=
    { number := inner.number, parent := s.number, upTo := after.world.next, ends := after.world.now,
      status, signal, streams := after.channels.map (·.2) }
  let world := { after.world with processes := p :: after.world.processes }
  set { s.rejoin { after with world := world.setTime s.world.now } with
    last := some inner.number, status := 0 }

/-- Runs commands from a time on, each of which reads what the one before it writes. How they end, and
when. -/
def runPipe (again : Task → Action Unit) (tested : Bool) (start : Int) :
    Option Nat → List Command → Action (List (Finish × Int))
  | _, [] => return []
  | input, c :: cs => do
    modify fun s => { s with world := s.world.setTime start }
    let s ← get
    let (sink, world) := s.world.addStream (.sink [])
    let output := if cs.isEmpty then s.stream? 1 else some sink
    set { s with world }
    let f ← apart again
      (fun s =>
        let s := if input.isSome then s.setChannel 0 input else s
        s.setChannel 1 output)
      (again (.command c tested true))
    let ended := (← get).world.now
    modify fun s =>
      let source : Stream := .source (s.world.written sink) (s.world.heldUntil sink)
      { s with world := s.world.setStream sink source }
    let more ← runPipe again tested start (some sink) cs
    -- A writer whose reader has gone ends with it.
    let unread := match (← get).world.stream? sink with
      | some (.source chunks _) => !chunks.isEmpty
      | _ => false
    match f, more with
    | .late, (next, time) :: _ =>
      return (if unread && next ≠ .late then (.killed 13, time) else (f, ended)) :: more
    | _, _ => return (f, ended) :: more

/-- Runs commands connected by pipes, and waits for all of them. -/
def runPipeline (again : Task → Action Unit) (tested : Bool) (cs : List Command) : Action Unit := do
  let finishes ← runPipe again tested (← get).world.now none cs
  let time := finishes.foldl (fun t f => max t f.2) (← get).world.now
  modify fun s => { s with world := s.world.setTime time }
  if finishes.any fun f => f.1 = .late then throw .late
  else finishes.forM fun f => await f.1

/-! ## All of them -/

/-- Runs a command that is made of commands. -/
def runCompound (again : Task → Action Unit) (tested final : Bool) : Command → Action Unit
  | .simple .. => return ()
  | .redirected line body rs => do
    modify fun s => { s with line }
    redirectWhile (capture again) false rs (again (.command body tested false)) (return ())
  | .sequence cs => runSequence again tested final cs
  | .both a b => runBoth again tested final true a b
  | .either a b => runBoth again tested final false a b
  | .negated a => do
    again (.command a true false)
    modify fun s => { s with status := if s.status = 0 then 1 else 0 }
  | .pipe cs => runPipeline again tested cs
  | .choice condition yes no => runChoice again tested final condition yes no
  | .loop inverted condition body =>
    inLoop (Action.of (repeatWhile (again (.command condition true false))
      (again (.command body tested false)) inverted roundLimit 0))
  | .each line name words body => do
    modify fun s => { s with line }
    let items ← expandWords (capture again) words
    if items.isEmpty then setStatus 0
    else inLoop (Action.of (repeatFor line name (again (.command body tested false)) items))
  | .branches line subject branches => do
    modify fun s => { s with line }
    let t ← expandText (capture again) subject
    runBranches again tested final t branches
  | .subshell line body rs => runSubshell again tested final line body rs
  | .background line body rs => runBackground again line body rs
  | .define name body => modify fun s =>
    { s with functions := (name, body) :: s.functions.filter (·.1 ≠ name), status := 0 }

end Flatsheet.Shell
