/-!
# `Flatsheet.System.WorkerPool` — tasks carried out by a number of workers

A pool accepts tasks until it is shut down. Whatever the workers do happens in atomic steps that come in
any order; what a pool can do is what a list of such steps can make of it.

## Contents

* `Job`, `WorkerState`, `WorkerPool`
* `enqueue`, `take?`, `finish?`, `exit?`, `close`, `stop?`, `join?`: the atomic steps
* `PoolAction`, `step?`, `run?`: steps in any order
* `drain`, `shutDown`: one order of steps that leaves nothing undone
-/

namespace Flatsheet

/-- A task with the number under which it was accepted, from zero. -/
structure Job (α : Type) where
  number : Nat
  task : α
deriving DecidableEq, Repr

/-- What a worker is doing. -/
inductive WorkerState (α : Type)
  | idle
  | busy (job : Job α)
  /-- The worker has gone and will not come back. -/
  | gone
deriving DecidableEq, Repr

/-- A pool with all that has happened to its tasks. -/
structure WorkerPool (α : Type) where
  workers : List (WorkerState α)
  /-- The jobs that wait, first come first. -/
  queue : List (Job α) := []
  /-- No more tasks are accepted. -/
  closed : Bool := false
  /-- The workers that have been asked to stop. -/
  asked : List Nat := []
  /-- A shutdown has waited for all workers to go. -/
  joined : Bool := false
  /-- The jobs of all accepted tasks, in the order in which they were accepted. -/
  accepted : List (Job α) := []
  /-- The jobs that a worker has taken, in that order. -/
  taken : List (Job α) := []
  /-- The jobs that are done, in the order in which they were finished. -/
  finished : List (Job α) := []
deriving DecidableEq, Repr

/-- Why a task is refused. -/
inductive PoolRefusal
  | shutDown
deriving DecidableEq, Repr

/-- The text of a refusal. -/
def PoolRefusal.message : PoolRefusal → List Char
  | shutDown => "WorkerPool is shut down".toList

namespace WorkerPool

variable {α : Type}

/-- A new pool. It has at least one worker. -/
def create (threads : Nat) : WorkerPool α := { workers := List.replicate (max threads 1) .idle }

/-- The number of workers. -/
def size (p : WorkerPool α) : Nat := p.workers.length

/-- The number of jobs that wait. -/
def pending (p : WorkerPool α) : Nat := p.queue.length

/-! ## Steps -/

/-- A task is accepted, unless the pool is closed. -/
def enqueue (p : WorkerPool α) (task : α) : Except PoolRefusal (WorkerPool α) :=
  if p.closed then .error .shutDown
  else
    let job : Job α := ⟨p.accepted.length, task⟩
    .ok { p with queue := p.queue ++ [job], accepted := p.accepted ++ [job] }

/-- A worker without work takes the first job that waits. -/
def take? (p : WorkerPool α) (worker : Nat) : Option (WorkerPool α) :=
  match p.workers[worker]?, p.queue with
  | some .idle, job :: rest =>
    some { p with
      workers := p.workers.set worker (.busy job), queue := rest, taken := p.taken ++ [job] }
  | _, _ => none

/-- A worker finishes its job. -/
def finish? (p : WorkerPool α) (worker : Nat) : Option (WorkerPool α) :=
  match p.workers[worker]? with
  | some (.busy job) =>
    some { p with workers := p.workers.set worker .idle, finished := p.finished ++ [job] }
  | _ => none

/-- What a worker without work waits for: a job, the closing of the pool, or that it is asked to stop. -/
def wakes (p : WorkerPool α) (worker : Nat) : Bool :=
  p.closed || !p.queue.isEmpty || p.asked.contains worker

/-- A worker without work that wakes up goes if no job waits. -/
def exit? (p : WorkerPool α) (worker : Nat) : Option (WorkerPool α) :=
  match p.workers[worker]?, p.queue with
  | some .idle, [] =>
    if p.wakes worker then some { p with workers := p.workers.set worker .gone } else none
  | _, _ => none

/-- No more tasks are accepted. -/
def close (p : WorkerPool α) : WorkerPool α := { p with closed := true }

/-- The shutdown that has closed the pool asks a worker to stop. -/
def stop? (p : WorkerPool α) (worker : Nat) : Option (WorkerPool α) :=
  if p.closed then some { p with asked := p.asked ++ [worker] } else none

/-- A worker has gone. -/
def isGone : WorkerState α → Bool
  | .gone => true
  | _ => false

/-- The shutdown that has closed the pool ends when all workers have gone. -/
def join? (p : WorkerPool α) : Option (WorkerPool α) :=
  if p.closed && p.workers.all isGone then some { p with joined := true } else none

/-- An atomic step. -/
inductive PoolAction (α : Type)
  | enqueue (task : α)
  | take (worker : Nat)
  | finish (worker : Nat)
  | exit (worker : Nat)
  | close
  | stop (worker : Nat)
  | join
deriving DecidableEq, Repr

/-- The pool after a step, if the step is possible. A refused task changes nothing. -/
def step? (p : WorkerPool α) : PoolAction α → Option (WorkerPool α)
  | .enqueue task => some ((p.enqueue task).toOption.getD p)
  | .take worker => p.take? worker
  | .finish worker => p.finish? worker
  | .exit worker => p.exit? worker
  | .close => some p.close
  | .stop worker => p.stop? worker
  | .join => p.join?

/-- The pool after steps in an order, if each of them is possible. -/
def run? (p : WorkerPool α) (actions : List (PoolAction α)) : Option (WorkerPool α) :=
  actions.foldlM step? p

/-! ## One order of steps -/

/-- The first worker does all jobs that wait. -/
def drain (p : WorkerPool α) : WorkerPool α :=
  p.queue.foldl (fun p _ => ((p.take? 0).bind (·.finish? 0)).getD p) p

/-- The pool is closed, the workers are asked to stop, all jobs are done, and all workers go. -/
def shutDown (p : WorkerPool α) : WorkerPool α :=
  let p := (List.range p.size).foldl (fun p w => (p.stop? w).getD p) p.close
  let p := p.drain
  let p := (List.range p.size).foldl (fun p w => (p.exit? w).getD p) p
  p.join?.getD p

end WorkerPool

end Flatsheet
