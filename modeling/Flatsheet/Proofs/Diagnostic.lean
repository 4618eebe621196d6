import Flatsheet.Diagnostic

/-!
# `Proofs.Diagnostic` — what the observers of an emitter are shown

An emitter takes the events of a piece of work one after the other (`Emitter.takeAll`). Each observer is shown the
same of them (`Emitter.shown`, `observers_takeAll`): those that are severe enough, in the order in which they come.

What is shown under one number comes from the events of that number and those of none (`shown_congr`). So events of
different numbers may come in any order among each other.
-/

namespace Flatsheet.Emitter

@[simp] theorem accept_least (em : Emitter) (e : Event) : (em.accept e).least = em.least := by
  unfold accept
  dsimp only
  split
  · rfl
  · split <;> rfl

@[simp] theorem accept_correlation (em : Emitter) (e : Event) :
    (em.accept e).correlation = em.correlation := by
  unfold accept
  dsimp only
  split
  · rfl
  · split <;> rfl

@[simp] theorem accept_observers (em : Emitter) (e : Event) :
    (em.accept e).observers = em.observers.map (· ++ [e]) := by
  unfold accept
  dsimp only
  split
  · rfl
  · split <;> rfl

/-- Takes an event: under its number, or under that of the emitter if it has none. -/
def take (em : Emitter) (e : Event) : Emitter :=
  if e.correlation = 0 then em.emit e.note else em.emitFor e.correlation e.note

/-- Takes events one after the other. -/
def takeAll (em : Emitter) (es : List Event) : Emitter := es.foldl take em

/-- The event as it is shown. -/
def stamped (em : Emitter) (e : Event) : Event :=
  if e.correlation = 0 then ⟨e.note, em.correlation⟩ else e

/-- What each observer is shown of events. -/
def shown (em : Emitter) (es : List Event) : List Event :=
  (es.filter (·.note.severity.atLeast em.least)).map em.stamped

theorem take_eq (em : Emitter) (e : Event) :
    em.take e = if e.note.severity.atLeast em.least then em.accept (em.stamped e) else em := by
  unfold take emit emitFor stamped
  split
  · rfl
  · rfl

theorem shown_take (em : Emitter) (e : Event) : (em.take e).shown = em.shown := by
  have hleast : (em.take e).least = em.least := by
    rw [take_eq]
    split
    · exact accept_least em _
    · rfl
  have hstamped : (em.take e).stamped = em.stamped := by
    rw [take_eq]
    split
    · unfold stamped
      rw [accept_correlation]
    · rfl
  unfold shown
  rw [hleast, hstamped]

/-- **Each observer is shown the events that are severe enough**, in the order in which they come. -/
theorem observers_takeAll (em : Emitter) (es : List Event) :
    (em.takeAll es).observers = em.observers.map (· ++ em.shown es) := by
  induction es generalizing em with
  | nil => simp [takeAll, shown]
  | cons e es ih =>
    show ((em.take e).takeAll es).observers = _
    rw [ih, shown_take, take_eq]
    by_cases hsevere : e.note.severity.atLeast em.least
    · simp [shown, hsevere, Function.comp_def]
    · simp [shown, hsevere]

/-- What is shown under a number has that number or none. -/
theorem filter_shown (em : Emitter) (es : List Event) (n : Nat) :
    (em.shown es).filter (·.correlation = n) =
      (em.shown (es.filter fun e => e.correlation = n ∨ e.correlation = 0)).filter (·.correlation = n) := by
  unfold shown
  rw [List.filter_map, List.filter_map, List.filter_filter, List.filter_filter, List.filter_filter]
  congr 1
  apply List.filter_congr
  intro e _
  by_cases hzero : e.correlation = 0
  · simp [hzero]
  · simp only [Function.comp_apply, stamped, if_neg hzero]
    by_cases hn : e.correlation = n
    · simp [hn]
    · simp [hn]

/-- **What is shown under a number is a matter of the events of that number and of none.** -/
theorem shown_congr {es es' : List Event} {n : Nat}
    (h : (es'.filter fun e => e.correlation = n ∨ e.correlation = 0) =
      es.filter fun e => e.correlation = n ∨ e.correlation = 0) (em : Emitter) :
    (em.shown es').filter (·.correlation = n) = (em.shown es).filter (·.correlation = n) := by
  rw [filter_shown, h, ← filter_shown]

end Flatsheet.Emitter
