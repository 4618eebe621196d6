import Flatsheet.Text.Basic

/-!
# `Flatsheet.Diagnostic` — notes, events and the emitter that keeps them

Every stage of the program reports what it did as a list of `Note`s. A note becomes an `Event` when an
`Emitter` accepts it: the emitter stamps a correlation number on it, shows it to its observers and keeps
the newest events up to a limit.

## Contents

* `Severity`, `Note`, `Event` and `Event.format`
* `Emitter` with `emit`, `emitFor`, `setLimit`, `clear` and the selections of its history
-/

namespace Flatsheet

/-- How much a note matters. -/
inductive Severity
  | debug
  | info
  | warning
  | error
deriving DecidableEq, Repr

namespace Severity

/-- Severities grow from `debug` to `error`. -/
def rank : Severity → Nat
  | debug => 0
  | info => 1
  | warning => 2
  | error => 3

/-- The severity is at least the given one. -/
def atLeast (s least : Severity) : Bool := least.rank ≤ s.rank

/-- The word for a severity. -/
def name : Severity → Text
  | debug => "debug".toList
  | info => "info".toList
  | warning => "warning".toList
  | error => "error".toList

/-- The severity that a word names exactly. -/
def ofName? (t : Text) : Option Severity :=
  [debug, info, warning, error].find? fun s => s.name = t

end Severity

/-- One remark of a stage: what it concerns and what it says. -/
structure Note where
  severity : Severity
  area : Text
  stage : Text
  message : Text
deriving DecidableEq, Repr

/-- A note with the number of the piece of work that it belongs to. Zero stands for no such piece. -/
structure Event where
  note : Note
  correlation : Nat
deriving DecidableEq, Repr

/-- An event as one line, `[warning] scss/variables (cid:3): message`. What is empty, and a correlation
of zero, is left out. -/
def Event.format (e : Event) : Text :=
  "[".toList ++ e.note.severity.name ++ "]".toList
    ++ (if e.note.area.isEmpty then [] else ' ' :: e.note.area)
    ++ (if e.note.stage.isEmpty then [] else '/' :: e.note.stage)
    ++ (if e.correlation = 0 then [] else " (cid:".toList ++ Text.ofNat e.correlation ++ ")".toList)
    ++ ": ".toList ++ e.note.message

/-- Keeps the newest accepted events and shows every accepted event to its observers. -/
structure Emitter where
  /-- Notes below this severity are not accepted. -/
  least : Severity := .info
  /-- The correlation that `emit` stamps. -/
  correlation : Nat := 0
  /-- How many events the history may hold. -/
  limit : Nat := 10000
  /-- The accepted events that are kept, oldest first. -/
  history : List Event := []
  /-- How many accepted events are kept no longer. -/
  dropped : Nat := 0
  /-- What each observer has been shown, oldest first. -/
  observers : List (List Event) := []
deriving Repr

namespace Emitter

/-- Shows an accepted event to all observers and puts it at the end of the history, from which the
oldest event goes if it is full. Without room for a single event the new one is dropped at once. -/
def accept (em : Emitter) (e : Event) : Emitter :=
  let em := { em with observers := em.observers.map (· ++ [e]) }
  if em.limit = 0 then { em with dropped := em.dropped + 1 }
  else if em.history.length = em.limit then
    { em with history := em.history.tail ++ [e], dropped := em.dropped + 1 }
  else { em with history := em.history ++ [e] }

/-- Takes a note under an explicit correlation, if it is severe enough. -/
def emitFor (em : Emitter) (correlation : Nat) (n : Note) : Emitter :=
  if n.severity.atLeast em.least then em.accept ⟨n, correlation⟩ else em

/-- Takes a note under the emitter's own correlation. -/
def emit (em : Emitter) (n : Note) : Emitter := em.emitFor em.correlation n

/-- Takes notes one after the other. -/
def emitAll (em : Emitter) (ns : List Note) : Emitter := ns.foldl emit em

/-- Changes the correlation that later notes get. -/
def setCorrelation (em : Emitter) (id : Nat) : Emitter := { em with correlation := id }

/-- Changes the least severity that is accepted. -/
def setLeast (em : Emitter) (s : Severity) : Emitter := { em with least := s }

/-- Changes how many events are kept. The oldest that no longer fit are dropped. -/
def setLimit (em : Emitter) (limit : Nat) : Emitter :=
  let excess := em.history.length - limit
  { em with limit := limit, history := em.history.drop excess, dropped := em.dropped + excess }

/-- A new observer, which is shown the events accepted from now on. -/
def addObserver (em : Emitter) : Emitter := { em with observers := em.observers ++ [[]] }

/-- Forgets the history and the number of dropped events. -/
def clear (em : Emitter) : Emitter := { em with history := [], dropped := 0 }

/-- How many events are kept. -/
def size (em : Emitter) : Nat := em.history.length

/-- The kept events of one severity. -/
def ofSeverity (em : Emitter) (s : Severity) : List Event :=
  em.history.filter fun e => e.note.severity = s

/-- The kept events of one area. -/
def ofArea (em : Emitter) (area : Text) : List Event :=
  em.history.filter fun e => e.note.area = area

/-- The kept events of one correlation. -/
def ofCorrelation (em : Emitter) (id : Nat) : List Event :=
  em.history.filter fun e => e.correlation = id

/-- How many kept events are at least as severe as the given severity. -/
def countAtLeast (em : Emitter) (s : Severity) : Nat :=
  em.history.countP fun e => e.note.severity.atLeast s

end Emitter

/-- The events that an emitter without a limit makes of notes of one correlation. -/
def eventsOf (least : Severity) (correlation : Nat) (ns : List Note) : List Event :=
  (ns.filter fun n => n.severity.atLeast least).map (⟨·, correlation⟩)

end Flatsheet
