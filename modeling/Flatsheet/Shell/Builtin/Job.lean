import Flatsheet.Shell.Builtin.Basic

/-!
# `Flatsheet.Shell.Builtin.Job` — builtins for signals and programs in the background

## Contents

* `setTraps`, `kill`: signals
* `wait`, `listJobs`, `resume`: programs in the background
-/

namespace Flatsheet.Shell.Builtin

open Text

/-! ## Signals and programs in the background -/

/-- The number of a signal, which goes by its number or by its name in letters of either case. -/
def signalOf? (least : Nat) (t : Text) : Option Nat :=
  match digits? t with
  | some n => if n ≤ 64 && least ≤ n then some n else none
  | none =>
    (signalNames.find? fun p => least ≤ p.1 && p.2.toList = t.map Char.toUpper).map (·.1)

/-- The name of a signal. -/
def signalName (n : Nat) : Text := ((signalNames.lookup n).map String.toList).getD (ofNat n)

/-- `trap`. -/
def setTraps (as : List Text) : Action Unit := do
  match ← operands as with
  | [] =>
    let traps := (← get).traps.mergeSort fun a b => a.1 ≤ b.1
    output (traps.flatMap fun (n, action) =>
      "trap -- ".toList ++ quotedText action ++ ' ' :: signalName n ++ ['\n'])
  | first :: rest =>
    let (action, names) :=
      if rest.isEmpty || (digits? first).isSome then (none, first :: rest)
      else (if first = ['-'] then none else some first, rest)
    setStatus 0
    for name in names do
      match signalOf? 0 name with
      | none =>
        warn ("trap: ".toList ++ name ++ ": bad trap".toList)
        return
      | some n => modify fun s => { s with
          traps := (action.toList.map (n, ·)) ++ s.traps.filter (·.1 ≠ n) }

/-- The signals that do nothing to a program without a trap. -/
def isHarmless (signal : Nat) : Bool := signal = 17 || signal = 18 || signal = 23 || signal = 28

/-- The signals that stop a program without ending it. -/
def isStopping (signal : Nat) : Bool := 19 ≤ signal && signal ≤ 22

/-- The shell gets a signal. -/
def receiveSignal (signal : Nat) : Action Unit := do
  let s ← get
  let trap? :=
    if signal = 9 || signal = 19 then none
    else if s.deafTo.contains signal then some []
    else s.traps.lookup signal
  match trap? with
  | some [] => return ()
  | some _ => set { s with pending := signal :: s.pending }
  | none =>
    if signal = 0 || isHarmless signal then return ()
    else if isStopping signal then waitUntil s.world.deadline
    else throw (.killed signal)

/-- A program in the background is ended by a signal. What it would have written later is not written, and
only a program that it waits for still keeps its streams open. -/
def killProcess (w : World) (p : Process) (signal : Nat) : World :=
  let mine (number : Nat) : Bool := p.number ≤ number && number < p.upTo
  let sleeping := w.naps.find? fun n =>
    mine n.number && n.number ≠ p.number && n.starts ≤ w.now && w.now < n.ends
  let orphan : List Process := sleeping.toList.map fun n =>
    ⟨n.number, 0, n.number + 1, n.ends, 0, none, n.streams, true⟩
  let ended : Process := { p with ends := w.now, signal := some signal, streams := [] }
  let cut (s : Stream) : Stream := match s with
    | .sink chunks => .sink (chunks.filter fun c => !(mine c.writer && w.now < c.time))
    | s => s
  { w with
    processes := orphan ++ w.processes.map fun q => if q.number = p.number then ended else q
    streams := w.streams.map fun s => (s.1, cut s.2) }

/-- Sends a signal to a program, and tells whether there is one of that number. -/
def sendSignal (signal number : Nat) : Action Bool := do
  let s ← get
  if number = s.number then
    receiveSignal signal
    return true
  else if s.waiting.contains number then
    if 0 < signal then
      set { s with world := { s.world with posted := (s.world.now, number, signal) :: s.world.posted } }
    return true
  else match s.world.processes.find? fun p => p.number = number && !p.awaited with
    | some p =>
      if s.world.now < p.ends && 0 < signal && !isHarmless signal then
        set { s with world := killProcess s.world p signal }
      return true
    | none => return false

/-- The jobs of a shell, the latest first. -/
def jobsOf (s : Session) : List Process := s.world.processes.filter fun p => p.parent = s.number

/-- The job that a percent sign and its number stand for. -/
def jobOf (t : Text) : Action Process := do
  let jobs := jobsOf (← get)
  let found : Option Process := match t.tail with
    | [] => jobs.head?
    | ['%'] => jobs.head?
    | ['+'] => jobs.head?
    | ['-'] => jobs[1]?
    | n => (digits? n).bind fun n => if n = 0 then none else jobs.reverse[n - 1]?
  match found with
  | some p => return p
  | none => fail ("No such job: ".toList ++ t)

/-- `kill` with signals by number. -/
def listSignals (as : List Text) : Action Unit := do
  match as with
  | [] =>
    let names := (List.range 32).map fun n => if n = 0 || n = 16 then ofNat n else signalName n
    let later := ["32", "33", "RTMIN"] ++ (List.range 15).map (fun n => "RTMIN+" ++ toString (n + 1))
      ++ (List.range 14).map (fun n => "RTMAX-" ++ toString (14 - n)) ++ ["RTMAX"]
    output ((names ++ later.map String.toList).flatMap (· ++ ['\n']))
  | a :: _ =>
    let n ← numberOf a
    let n := if 128 < n then n - 128 else n
    if 0 < n && n ≤ 64 then output (signalName n ++ ['\n'])
    else fail ("invalid signal number or exit status: ".toList ++ a)

/-- `kill`. -/
def kill (as : List Text) : Action Unit := do
  let usage : Action Unit := fail ("Usage: kill [-s sigspec | -signum | -sigspec] [pid | job]... or\n"
    ++ "kill -l [exitstatus]").toList
  let first := as.headD []
  let direct := if first.head? = some '-' then signalOf? 1 first.tail else none
  let zero := first = ['-', '0']
  let (list, signal, targets) ←
    if zero then pure (false, some 0, as.tail)
    else if direct.isSome then pure (false, direct, as.tail)
    else do
      let (os, rest) ← options "ls:" as
      match os.find? fun o => o.1 = 's' with
      | some (_, name) =>
        match if name = ['0'] then some 0 else signalOf? 1 name with
        | some n => pure (false, some n, rest)
        | none => fail ("invalid signal number or name: ".toList ++ name)
      | none => pure (!os.isEmpty, if os.isEmpty then some 15 else none, rest)
  if list then listSignals targets
  else if targets.isEmpty then usage
  else
    setStatus 0
    let mut failed := false
    for t in targets do
      let number ←
        if t.head? = some '%' then do pure (← jobOf t).number
        else if t.head? = some '-' then numberOf t.tail
        else numberOf t
      if !(← sendSignal (signal.getD 15) number) then
        complain "No such process\n".toList
        failed := true
    setStatus (if failed then 1 else 0)

/-- The jobs have been noticed to have ended, if they have. -/
def reap : Action Unit := modify fun s => { s with world := { s.world with
  processes := s.world.processes.map fun p =>
    if p.parent = s.number && p.ends ≤ s.world.now then { p with awaited := true } else p } }

/-- Waits until a time, unless a signal with a trap comes. Then the signal is the answer. -/
def waitOrSignal (time : Int) : Action (Option Nat) := do
  let s ← get
  let due := s.world.posted.filter fun p =>
    p.2.1 = s.number && p.1 ≤ time && (s.traps.lookup p.2.2).any fun a => !a.isEmpty
  match s.pending.getLast?, due.getLast? with
  | some n, _ => return some n
  | none, some (moment, _, n) =>
    waitUntil (max s.world.now moment)
    receive (← get).world.now
    return some n
  | none, none =>
    waitUntil time
    return none

/-- `wait`. -/
def wait (as : List Text) : Action Unit := do
  match ← operands as with
  | [] =>
    let jobs := jobsOf (← get)
    let s ← get
    match ← waitOrSignal (jobs.foldl (fun t p => max t p.ends) s.world.now) with
    | some n => setStatus (128 + n)
    | none =>
      reap
      setStatus 0
  | as =>
    setStatus 127
    for a in as do
      let job? ←
        if a.head? = some '%' then do pure (some (← jobOf a))
        else do
          let n ← numberOf a
          pure ((jobsOf (← get)).find? fun p => p.number = n)
      match job? with
      | none => setStatus 127
      | some p =>
        match ← waitOrSignal (max (← get).world.now p.ends) with
        | some n =>
          setStatus (128 + n)
          return
        | none =>
          if p.awaited then setStatus (match p.signal with
            | some n => 128 + n
            | none => p.status)
          else report p.status p.signal
          reap

/-- `jobs`. -/
def listJobs (as : List Text) : Action Unit := do
  let _ ← options "lp" as
  let s ← get
  let jobs := jobsOf s
  let running (p : Process) : Bool := s.world.now < p.ends
  let lines := (List.range jobs.length).zip jobs |>.map fun (i, p) =>
    -- Those that have been shown to be done are not the current job any more.
    let place := ((jobs.take i).filter running).length
    let mark := if place = 0 then '+' else if place = 1 then '-' else ' '
    let state : String :=
      if running p then "Running"
      else match p.signal with
        | some n => (signalReport? n).getD ""
        | none => if p.status = 0 then "Done" else "Done(" ++ toString p.status ++ ")"
    let start := '[' :: ofNat (jobs.length - i) ++ "] ".toList ++ [mark, ' '] ++ state.toList
    start ++ List.replicate (33 - start.length) ' ' ++ ['\n']
  output lines.flatten
  -- What has been shown to be done is forgotten.
  modify fun s => { s with world := { s.world with
    processes := s.world.processes.filter fun p => p.parent ≠ s.number || s.world.now < p.ends } }

/-- `fg` and `bg`. -/
def resume (as : List Text) : Action Unit := do
  let p? := (jobsOf (← get)).head?
  match as, p? with
  | [], none => fail "No current job".toList
  | [], some _ => fail "job (null) not created under job control".toList
  | a :: _, _ =>
    let _ ← jobOf a
    fail "job (null) not created under job control".toList

end Flatsheet.Shell.Builtin
