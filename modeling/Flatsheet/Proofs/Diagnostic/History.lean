import Flatsheet.Proofs.Diagnostic
import Mathlib.Data.List.DropRight

/-!
# `Proofs.Diagnostic.History` — the history of an emitter under any calls

What a caller can know of an emitter is a matter of the calls it has made. The first part of this file says, without
an emitter, what each sequence of calls asks for: the values that are set (`leastAfter`, `correlationAfter`,
`limitAfter`), the events that are accepted (`accepted`) and those of them that no `clear` has followed
(`sinceClear`).

The second part shows that an emitter does what it is asked for. `Kept` is what carries the history through the
calls: it is the end of the events since the last `clear`, and what stands before it are the dropped events. The
induction is on the calls from their end, since each call is understood from those before it.
-/

namespace Flatsheet.Emitter

/-- A call that may change an emitter. -/
inductive Call
  | emit (n : Note)
  | emitFor (correlation : Nat) (n : Note)
  | setCorrelation (id : Nat)
  | setLeast (s : Severity)
  | setLimit (limit : Nat)
  | addObserver
  | clear
deriving DecidableEq, Repr

/-- The emitter after a call. -/
def perform (em : Emitter) : Call → Emitter
  | .emit n => em.emit n
  | .emitFor correlation n => em.emitFor correlation n
  | .setCorrelation id => em.setCorrelation id
  | .setLeast s => em.setLeast s
  | .setLimit limit => em.setLimit limit
  | .addObserver => em.addObserver
  | .clear => em.clear

/-- The emitter after calls, the first one first. -/
def performAll (em : Emitter) (calls : List Call) : Emitter := calls.foldl perform em

/-! ## What calls ask for -/

namespace Call

/-- The least severity that a call sets. -/
def least? : Call → Option Severity
  | .setLeast s => some s
  | _ => none

/-- The correlation that a call sets. -/
def correlation? : Call → Option Nat
  | .setCorrelation id => some id
  | _ => none

/-- The limit that a call sets. -/
def limit? : Call → Option Nat
  | .setLimit limit => some limit
  | _ => none

/-- The event that a call offers, given the number for notes that come without one. -/
def event? (correlation : Nat) : Call → Option Event
  | .emit n => some ⟨n, correlation⟩
  | .emitFor id n => some ⟨n, id⟩
  | _ => none

end Call

/-- What calls have set last, or else what a new emitter has. -/
def lastSet {β : Type} (value? : Call → Option β) (initial : β) (calls : List Call) : β :=
  (calls.filterMap value?).getLastD initial

/-- The least severity that is accepted after calls. -/
def leastAfter (calls : List Call) : Severity := lastSet Call.least? .info calls

/-- The correlation of the emitter after calls. -/
def correlationAfter (calls : List Call) : Nat := lastSet Call.correlation? 0 calls

/-- How many events are kept at most after calls. -/
def limitAfter (calls : List Call) : Nat := lastSet Call.limit? 10000 calls

/-- The event that is accepted from a call: it is offered, and at that moment it is severe enough. -/
def acceptedFrom (before : List Call) (c : Call) : Option Event :=
  (c.event? (correlationAfter before)).filter fun e => e.note.severity.atLeast (leastAfter before)

/-- The events that are accepted from calls which come after others. -/
def accepted (before : List Call) : List Call → List Event
  | [] => []
  | c :: calls => (acceptedFrom before c).toList ++ accepted (before ++ [c]) calls

/-- The call is another one than `clear`. -/
def keeps (c : Call) : Bool := c ≠ .clear

/-- The events that have been accepted since the last `clear`. -/
def sinceClear (calls : List Call) : List Event :=
  accepted (calls.rdropWhile keeps) (calls.rtakeWhile keeps)

section

variable {calls : List Call} {c : Call}

theorem lastSet_concat {β : Type} (value? : Call → Option β) (initial : β) (calls : List Call) (c : Call) :
    lastSet value? initial (calls ++ [c]) = (value? c).getD (lastSet value? initial calls) := by
  unfold lastSet
  rw [List.filterMap_append]
  cases h : value? c with
  | none => simp [h]
  | some b => simp [h]

theorem accepted_append (before calls more : List Call) :
    accepted before (calls ++ more) = accepted before calls ++ accepted (before ++ calls) more := by
  induction calls generalizing before with
  | nil => simp [accepted]
  | cons c calls ih =>
    show _ ++ accepted (before ++ [c]) (calls ++ more) = _
    rw [ih, accepted, List.append_assoc, List.append_assoc]
    rfl

theorem accepted_concat (before calls : List Call) (c : Call) :
    accepted before (calls ++ [c]) = accepted before calls ++ (acceptedFrom (before ++ calls) c).toList := by
  rw [accepted_append]
  simp [accepted]

theorem sinceClear_clear (calls : List Call) : sinceClear (calls ++ [.clear]) = [] := by
  unfold sinceClear
  rw [List.rtakeWhile_concat_neg _ _ _ (by decide)]
  rfl

theorem sinceClear_concat (hc : c ≠ .clear) :
    sinceClear (calls ++ [c]) = sinceClear calls ++ (acceptedFrom calls c).toList := by
  have hkeeps : keeps c = true := by simpa [keeps] using hc
  unfold sinceClear
  rw [List.rdropWhile_concat_pos _ _ _ hkeeps, List.rtakeWhile_concat_pos _ _ _ hkeeps, accepted_concat,
    List.rdropWhile_append_rtakeWhile]

end

/-! ## What a call does -/

section

variable {em em' : Emitter} {calls : List Call} {c : Call} {es : List Event}

@[simp] theorem accept_limit (em : Emitter) (e : Event) : (em.accept e).limit = em.limit := by
  unfold accept
  dsimp only
  split
  · rfl
  · split <;> rfl

/-- The values of the emitter are those that calls have set last. -/
structure Current (calls : List Call) (em : Emitter) : Prop where
  least : em.least = leastAfter calls
  correlation : em.correlation = correlationAfter calls
  limit : em.limit = limitAfter calls

/-- **What a call does to an emitter**, given the calls before it. -/
inductive Effect (calls : List Call) (em : Emitter) : Call → Emitter → Prop
  | accept {c : Call} {e : Event} (offered : (c.event? em.correlation).isSome = true)
      (accepted : acceptedFrom calls c = some e) : Effect calls em c (em.accept e)
  | refuse {c : Call} (offered : (c.event? em.correlation).isSome = true) (refused : acceptedFrom calls c = none) :
      Effect calls em c em
  | setCorrelation (id : Nat) : Effect calls em (.setCorrelation id) { em with correlation := id }
  | setLeast (s : Severity) : Effect calls em (.setLeast s) { em with least := s }
  | setLimit (limit : Nat) : Effect calls em (.setLimit limit) (em.setLimit limit)
  | addObserver : Effect calls em .addObserver { em with observers := em.observers ++ [[]] }
  | clear : Effect calls em .clear { em with history := [], dropped := 0 }

/-- An offered event is accepted if it is severe enough at that moment. -/
theorem Current.acceptedFrom_eq (hem : Current calls em) {e : Event} (h : c.event? em.correlation = some e) :
    acceptedFrom calls c = if e.note.severity.atLeast em.least then some e else none := by
  unfold acceptedFrom
  rw [← hem.least, ← hem.correlation, h, Option.filter_some]

/-- An offered event is accepted, or it changes nothing. -/
theorem Current.effect_offered (hem : Current calls em) {id : Nat} {n : Note}
    (h : c.event? em.correlation = some ⟨n, id⟩) : Effect calls em c (em.emitFor id n) := by
  have haccepted := hem.acceptedFrom_eq h
  have hoffered : (c.event? em.correlation).isSome = true := by
    rw [h]
    rfl
  unfold emitFor
  by_cases hsevere : n.severity.atLeast em.least = true
  · rw [if_pos hsevere] at haccepted ⊢
    exact .accept hoffered haccepted
  · rw [if_neg hsevere] at haccepted ⊢
    exact .refuse hoffered haccepted

theorem Current.effect (hem : Current calls em) (c : Call) : Effect calls em c (em.perform c) := by
  cases c with
  | emit n => exact hem.effect_offered rfl
  | emitFor id n => exact hem.effect_offered rfl
  | setCorrelation id => exact .setCorrelation id
  | setLeast s => exact .setLeast s
  | setLimit limit => exact .setLimit limit
  | addObserver => exact .addObserver
  | clear => exact .clear

/-- A call that offers an event sets nothing and does not clear. -/
theorem of_offered {id : Nat} (h : (c.event? id).isSome = true) :
    c.least? = none ∧ c.correlation? = none ∧ c.limit? = none ∧ c ≠ .clear ∧ c ≠ .addObserver := by
  cases c with
  | emit n => simp [Call.least?, Call.correlation?, Call.limit?]
  | emitFor id n => simp [Call.least?, Call.correlation?, Call.limit?]
  | setCorrelation id => cases h
  | setLeast s => cases h
  | setLimit limit => cases h
  | addObserver => cases h
  | clear => cases h

theorem Current.step (hem : Current calls em) (h : Effect calls em c em') : Current (calls ++ [c]) em' := by
  have hset : em'.least = c.least?.getD em.least ∧ em'.correlation = c.correlation?.getD em.correlation ∧
      em'.limit = c.limit?.getD em.limit := by
    cases h with
    | accept offered =>
      obtain ⟨hleast, hcorrelation, hlimit, -⟩ := of_offered offered
      simp [hleast, hcorrelation, hlimit]
    | refuse offered =>
      obtain ⟨hleast, hcorrelation, hlimit, -⟩ := of_offered offered
      simp [hleast, hcorrelation, hlimit]
    | setCorrelation id => exact ⟨rfl, rfl, rfl⟩
    | setLeast s => exact ⟨rfl, rfl, rfl⟩
    | setLimit limit => exact ⟨rfl, rfl, rfl⟩
    | addObserver => exact ⟨rfl, rfl, rfl⟩
    | clear => exact ⟨rfl, rfl, rfl⟩
  obtain ⟨hleast, hcorrelation, hlimit⟩ := hset
  constructor
  · rw [hleast, hem.least, leastAfter, leastAfter, lastSet_concat]
  · rw [hcorrelation, hem.correlation, correlationAfter, correlationAfter, lastSet_concat]
  · rw [hlimit, hem.limit, limitAfter, limitAfter, lastSet_concat]

/-! ## The history -/

/-- **What is kept of events**: their end, which is not longer than the limit. What stands before it is dropped. -/
structure Kept (es : List Event) (em : Emitter) : Prop where
  split : ∃ lost, es = lost ++ em.history ∧ em.dropped = lost.length
  bounded : em.history.length ≤ em.limit

theorem Kept.accept (hem : Kept es em) (e : Event) : Kept (es ++ [e]) (em.accept e) := by
  obtain ⟨⟨lost, hes, hdropped⟩, hbounded⟩ := hem
  unfold Emitter.accept
  dsimp only
  split
  · -- there is no room for a single event, so the history is empty
    next hzero =>
    rw [hzero, Nat.le_zero, List.length_eq_zero_iff] at hbounded
    refine ⟨⟨lost ++ [e], ?_, ?_⟩, ?_⟩
    · simp [hes, hbounded]
    · simp [hdropped]
    · simp [hbounded]
  · next hroom =>
    split
    · -- the oldest event has to go
      next hfull =>
      cases hhistory : em.history with
      | nil =>
        rw [hhistory] at hfull
        exact absurd hfull.symm hroom
      | cons oldest rest =>
        refine ⟨⟨lost ++ [oldest], ?_, ?_⟩, ?_⟩
        · simp [hes, hhistory]
        · simp [hdropped]
        · simpa [hhistory] using hfull.le
    · next hfull =>
      refine ⟨⟨lost, ?_, hdropped⟩, ?_⟩
      · simp [hes]
      · show (em.history ++ [e]).length ≤ em.limit
        rw [List.length_append, List.length_singleton]
        omega

/-- An event is dropped only for want of room. -/
theorem Kept.size_accept (hem : Kept es em) (e : Event) : (em.accept e).size = min (em.size + 1) em.limit := by
  have hbounded := hem.bounded
  unfold Emitter.accept Emitter.size
  dsimp only
  split
  · next hzero =>
    show em.history.length = _
    omega
  · split
    · show (em.history.tail ++ [e]).length = _
      rw [List.length_append, List.length_tail, List.length_singleton]
      omega
    · show (em.history ++ [e]).length = _
      rw [List.length_append, List.length_singleton]
      omega

theorem Kept.setLimit (hem : Kept es em) (limit : Nat) : Kept es (em.setLimit limit) := by
  obtain ⟨⟨lost, hes, hdropped⟩, -⟩ := hem
  refine ⟨⟨lost ++ em.history.take (em.history.length - limit), ?_, ?_⟩, ?_⟩
  · show es = _ ++ em.history.drop _
    rw [List.append_assoc, List.take_append_drop]
    exact hes
  · show em.dropped + (em.history.length - limit) = _
    rw [hdropped, List.length_append, List.length_take, Nat.min_eq_left (Nat.sub_le _ _)]
  · show (em.history.drop _).length ≤ limit
    rw [List.length_drop]
    omega

/-- A call that accepts nothing leaves what is kept. -/
theorem Kept.more_nil (hem : Kept es em) (hhistory : em'.history = em.history) (hdropped : em'.dropped = em.dropped)
    (hlimit : em'.limit = em.limit) : Kept (es ++ (none : Option Event).toList) em' := by
  rw [Option.toList_none, List.append_nil]
  constructor
  · rw [hhistory, hdropped]
    exact hem.split
  · rw [hhistory, hlimit]
    exact hem.bounded

theorem Kept.step (hem : Kept (sinceClear calls) em) (h : Effect calls em c em') :
    Kept (sinceClear (calls ++ [c])) em' := by
  by_cases hc : c = .clear
  · -- nothing has been accepted since
    subst hc
    rw [sinceClear_clear]
    cases h with
    | accept offered => cases offered
    | refuse offered => cases offered
    | clear => exact ⟨⟨[], rfl, rfl⟩, Nat.zero_le _⟩
  · rw [sinceClear_concat hc]
    cases h with
    | accept offered accepted =>
      rw [accepted]
      exact hem.accept _
    | refuse offered refused =>
      rw [refused]
      exact hem.more_nil rfl rfl rfl
    | setCorrelation id => exact hem.more_nil rfl rfl rfl
    | setLeast s => exact hem.more_nil rfl rfl rfl
    | setLimit limit => exact (hem.setLimit limit).more_nil rfl rfl rfl
    | addObserver => exact hem.more_nil rfl rfl rfl
    | clear => exact absurd rfl hc

/-- The history is the end of the events. -/
theorem Kept.newest (hem : Kept es em) : em.history = es.rtake em.size := by
  obtain ⟨lost, hes, -⟩ := hem.split
  rw [List.rtake, hes, List.length_append, Emitter.size, Nat.add_sub_cancel, List.drop_left]

theorem Kept.counted (hem : Kept es em) : em.dropped + em.size = es.length := by
  obtain ⟨lost, hes, hdropped⟩ := hem.split
  rw [hes, hdropped, List.length_append]
  rfl

/-! ## The observers -/

/-- **Each observer has seen the events accepted since it was added.** The observers stand in the order in which they
were added. -/
structure Shown (calls : List Call) (em : Emitter) : Prop where
  number : em.observers.length = calls.count .addObserver
  seen : ∀ before after, calls = before ++ .addObserver :: after →
    em.observers[before.count .addObserver]? = some (accepted (before ++ [.addObserver]) after)

/-- What a call shows to the observers. -/
theorem Effect.observers (h : Effect calls em c em') :
    em'.observers =
      em.observers.map (· ++ (acceptedFrom calls c).toList) ++ if c = .addObserver then [[]] else [] := by
  cases h with
  | accept offered accepted =>
    obtain ⟨-, -, -, -, hc⟩ := of_offered offered
    simp [accepted, hc]
  | refuse offered refused =>
    obtain ⟨-, -, -, -, hc⟩ := of_offered offered
    simp [refused, hc]
  | setCorrelation id => simp [acceptedFrom, Call.event?]
  | setLeast s => simp [acceptedFrom, Call.event?]
  | setLimit limit => simp [acceptedFrom, Call.event?, Emitter.setLimit]
  | addObserver => simp [acceptedFrom, Call.event?]
  | clear => simp [acceptedFrom, Call.event?]

theorem Shown.step (hem : Shown calls em) (h : Effect calls em c em') : Shown (calls ++ [c]) em' := by
  have hobservers := h.observers
  constructor
  · rw [hobservers, List.length_append, List.length_map, hem.number, List.count_append, List.count_singleton]
    by_cases hc : c = .addObserver
    · simp [hc]
    · simp [hc]
  · intro before after hsplit
    rw [hobservers]
    rcases List.eq_nil_or_concat after with rfl | ⟨after, c', rfl⟩
    · -- the observer is the new one
      obtain ⟨rfl, hc⟩ := List.append_inj' hsplit rfl
      obtain rfl : c = .addObserver := by simpa using hc
      simp [hem.number, accepted]
    · -- the observer was there before, and is shown what the call accepts
      rw [List.concat_eq_append, ← List.cons_append, ← List.append_assoc] at hsplit
      obtain ⟨hcalls, hc⟩ := List.append_inj' hsplit rfl
      obtain rfl : c = c' := by simpa using hc
      have hseen := hem.seen before after hcalls
      have hlt := (List.getElem?_eq_some_iff.1 hseen).1
      rw [List.getElem?_append_left (by simpa using hlt), List.getElem?_map, hseen, Option.map_some,
        List.concat_eq_append, accepted_concat, List.append_assoc, List.singleton_append, ← hcalls]

end

/-! ## All calls -/

/-- **What an emitter shows of the calls that were made.** -/
structure Faithful (calls : List Call) (em : Emitter) : Prop where
  least : em.least = leastAfter calls
  correlation : em.correlation = correlationAfter calls
  limit : em.limit = limitAfter calls
  /-- The history consists of the newest events accepted since the last `clear`. -/
  newest : em.history = (sinceClear calls).rtake em.size
  bounded : em.size ≤ limitAfter calls
  counted : em.dropped + em.size = (sinceClear calls).length
  /-- An event is accepted just when it is at least as severe as the emitter asks for at that moment. -/
  accepts : ∀ c e, c.event? em.correlation = some e → (em.perform c).dropped + (em.perform c).size =
    em.dropped + em.size + if e.note.severity.atLeast em.least then 1 else 0
  /-- An accepted event takes the place of the oldest one only if there is no room for both. -/
  grows : ∀ c e, acceptedFrom calls c = some e → (em.perform c).size = min (em.size + 1) (limitAfter calls)
  lowered : ∀ limit, (em.perform (.setLimit limit)).size = min em.size limit
  /-- Each observer has seen every event accepted since it was added. -/
  observed : Shown calls em
  ofCorrelation : ∀ id, em.ofCorrelation id = ((sinceClear calls).rtake em.size).filter (·.correlation = id)
  ofSeverity : ∀ s, em.ofSeverity s = ((sinceClear calls).rtake em.size).filter (·.note.severity = s)
  ofArea : ∀ area, em.ofArea area = ((sinceClear calls).rtake em.size).filter (·.note.area = area)

/-- What carries over from call to call. -/
theorem carries (calls : List Call) :
    Current calls (performAll {} calls) ∧ Kept (sinceClear calls) (performAll {} calls) ∧
      Shown calls (performAll {} calls) := by
  induction calls using List.reverseRecOn with
  | nil =>
    refine ⟨⟨rfl, rfl, rfl⟩, ⟨⟨[], rfl, rfl⟩, Nat.zero_le _⟩, ⟨rfl, ?_⟩⟩
    intro before after hsplit
    simp at hsplit
  | append_singleton calls c ih =>
    obtain ⟨hset, hkept, hshown⟩ := ih
    have heffect := hset.effect c
    rw [performAll, List.foldl_append]
    exact ⟨hset.step heffect, hkept.step heffect, hshown.step heffect⟩

/-- **The history of an emitter is faithful to all calls**, in every order of them. -/
theorem performAll_faithful (calls : List Call) : Faithful calls (performAll {} calls) := by
  obtain ⟨hset, hkept, hshown⟩ := carries calls
  have hnewest := hkept.newest
  refine ⟨hset.least, hset.correlation, hset.limit, hnewest, ?_, hkept.counted, ?_, ?_, ?_, hshown, ?_, ?_, ?_⟩
  · rw [← hset.limit]
    exact hkept.bounded
  · -- one more call is a run, too, so what holds after each run holds after it
    intro c e hoffered
    have hc := (of_offered (Option.isSome_of_eq_some hoffered)).2.2.2.1
    have hafter := (carries (calls ++ [c])).2.1.counted
    rw [performAll, List.foldl_append, sinceClear_concat hc, List.length_append, ← hkept.counted,
      hset.acceptedFrom_eq hoffered] at hafter
    refine hafter.trans ?_
    split
    · rfl
    · rfl
  · intro c e haccepted
    have heffect := hset.effect c
    rw [← hset.limit]
    generalize (performAll {} calls).perform c = em' at heffect
    cases heffect with
    | accept offered accepted => exact hkept.size_accept _
    | refuse offered refused => simp [refused] at haccepted
    | _ => cases haccepted
  · intro limit
    show (List.drop _ _).length = min (List.length _) limit
    rw [List.length_drop]
    omega
  · intro id
    rw [← hnewest]
    rfl
  · intro s
    rw [← hnewest]
    rfl
  · intro area
    rw [← hnewest]
    rfl

/-- The limit goes down to nothing and up again, and the observer sees what the history never held. -/
example :
    let note (c : Char) : Note := ⟨.info, [], [], [c]⟩
    let em := performAll {} [.emit (note 'a'), .addObserver, .setLimit 0, .emit (note 'b'), .setLimit 1,
      .emitFor 7 (note 'c')]
    em.history = [⟨note 'c', 7⟩] ∧ em.dropped = 2 ∧ em.observers = [[⟨note 'b', 0⟩, ⟨note 'c', 7⟩]] := by
  decide

end Flatsheet.Emitter
