import Flatsheet.System.WorkerPool
import Mathlib.Algebra.GroupWithZero.Nat
import Mathlib.Data.List.Nodup
import Mathlib.Data.List.Perm.Basic

/-!
# `Proofs.System.WorkerPool` — whatever the order, each task is carried out once

What one atomic step can do is said once (`Step`, `step?_iff`); everything about pools follows from it.

* `Sound` is the invariant that each step keeps (`Sound.step`): the accepted jobs are the taken ones and then the
  waiting ones, a taken job is either in the hands of a worker or finished, and a worker is gone only if the pool is
  closed and nothing waits. `Sound.run` is the run.
* `toDo` counts the steps that workers still have to take. In a closed pool each of their steps brings it down by
  one (`toDo_step`), some worker can take a step as long as it is not zero (`exists_step`), and then the shutdown can
  end (`exists_join`). So a closed pool comes to its end on every schedule, after the same number of steps.

`run_orderly` puts this together for all pools and all interleavings. The shutdown by one worker is one of them
(`reaches_shutDown`).
-/

namespace Flatsheet.WorkerPool

variable {α : Type} {p q : WorkerPool α} {a : PoolAction α} {actions : List (PoolAction α)}

/-! ## What a step does -/

/-- The job under which the next task is accepted. -/
def nextJob (p : WorkerPool α) (task : α) : Job α := ⟨p.accepted.length, task⟩

/-- **What a step does to a pool.** -/
inductive Step (p : WorkerPool α) : PoolAction α → WorkerPool α → Prop
  | accept {task : α} (opened : p.closed = false) :
      Step p (.enqueue task)
        { p with queue := p.queue ++ [p.nextJob task], accepted := p.accepted ++ [p.nextJob task] }
  | refuse {task : α} (closed : p.closed = true) : Step p (.enqueue task) p
  | take {w : Nat} {job : Job α} {rest : List (Job α)} (idle : p.workers[w]? = some .idle)
      (waiting : p.queue = job :: rest) :
      Step p (.take w)
        { p with workers := p.workers.set w (.busy job), queue := rest, taken := p.taken ++ [job] }
  | finish {w : Nat} {job : Job α} (busy : p.workers[w]? = some (.busy job)) :
      Step p (.finish w) { p with workers := p.workers.set w .idle, finished := p.finished ++ [job] }
  | exit {w : Nat} (idle : p.workers[w]? = some .idle) (empty : p.queue = []) (wakes : p.wakes w = true) :
      Step p (.exit w) { p with workers := p.workers.set w .gone }
  | close : Step p .close { p with closed := true }
  | stop {w : Nat} (closed : p.closed = true) : Step p (.stop w) { p with asked := p.asked ++ [w] }
  | join (closed : p.closed = true) (gone : p.workers.all isGone = true) : Step p .join { p with joined := true }

theorem enqueue_of_closed (h : p.closed = true) (task : α) : p.enqueue task = .error .shutDown := by
  unfold enqueue
  rw [if_pos h]

theorem step?_iff : p.step? a = some q ↔ Step p a q := by
  constructor
  · intro h
    cases a with
    | enqueue task =>
      simp only [step?, enqueue, Option.some.injEq] at h
      split at h
      · next hclosed =>
        subst h
        exact .refuse hclosed
      · next hopen =>
        subst h
        exact .accept (by simpa using hopen)
    | take w =>
      simp only [step?, take?] at h
      split at h
      · next hidle hqueue =>
        cases h
        exact .take hidle hqueue
      · cases h
    | finish w =>
      simp only [step?, finish?] at h
      split at h
      · next hbusy =>
        cases h
        exact .finish hbusy
      · cases h
    | exit w =>
      simp only [step?, exit?] at h
      split at h
      · next hidle hqueue =>
        split at h
        · next hwakes =>
          cases h
          exact .exit hidle hqueue hwakes
        · cases h
      · cases h
    | close =>
      cases h
      exact .close
    | stop w =>
      simp only [step?, stop?] at h
      split at h
      · next hclosed =>
        cases h
        exact .stop hclosed
      · cases h
    | join =>
      simp only [step?, join?] at h
      split at h
      · next hgone =>
        rw [Bool.and_eq_true] at hgone
        cases h
        exact .join hgone.1 hgone.2
      · cases h
  · intro h
    cases h with
    | accept opened => simp [step?, enqueue, opened, nextJob, Except.toOption]
    | refuse closed => simp [step?, enqueue_of_closed closed, Except.toOption]
    | take idle waiting => simp [step?, take?, idle, waiting]
    | finish busy => simp [step?, finish?, busy]
    | exit idle empty wakes => simp [step?, exit?, idle, empty, wakes]
    | close => rfl
    | stop closed => simp [step?, stop?, closed]
    | join closed gone => simp [step?, join?, closed, gone]

@[simp] theorem run?_nil (p : WorkerPool α) : p.run? [] = some p := rfl

/-- A run is its first step and then the rest. -/
theorem run?_cons : p.run? (a :: actions) = some q ↔ ∃ u, Step p a u ∧ u.run? actions = some q := by
  simp only [run?, List.foldlM_cons, bind, Option.bind_eq_some_iff, step?_iff]

theorem run?_append {before after : List (PoolAction α)} :
    p.run? (before ++ after) = some q ↔ ∃ u, p.run? before = some u ∧ u.run? after = some q := by
  simp only [run?, List.foldlM_append, bind, Option.bind_eq_some_iff]

/-- A pool is what some steps make of another one. -/
def Reaches (p q : WorkerPool α) : Prop := ∃ actions, p.run? actions = some q

theorem Reaches.refl (p : WorkerPool α) : p.Reaches p := ⟨[], rfl⟩

theorem Reaches.trans {u : WorkerPool α} : p.Reaches u → u.Reaches q → p.Reaches q := by
  rintro ⟨before, hbefore⟩ ⟨after, hafter⟩
  exact ⟨before ++ after, run?_append.2 ⟨u, hbefore, hafter⟩⟩

/-- A step that is not possible is left out. -/
theorem reaches_step (p : WorkerPool α) (a : PoolAction α) : p.Reaches ((p.step? a).getD p) := by
  cases h : p.step? a with
  | none => exact .refl p
  | some q => exact ⟨[a], run?_cons.2 ⟨q, step?_iff.1 h, rfl⟩⟩

theorem reaches_foldl {β : Type} {f : WorkerPool α → β → WorkerPool α}
    (hf : ∀ (p : WorkerPool α) (b : β), p.Reaches (f p b)) (bs : List β) (p : WorkerPool α) :
    p.Reaches (bs.foldl f p) := by
  induction bs generalizing p with
  | nil => exact .refl p
  | cons b bs ih => exact (hf p b).trans (ih (f p b))

theorem reaches_drain (p : WorkerPool α) : p.Reaches p.drain := by
  apply reaches_foldl
  intro p _
  cases htake : p.take? 0 with
  | none => exact .refl p
  | some u =>
    cases hfinish : u.finish? 0 with
    | none => simpa [htake, hfinish] using Reaches.refl p
    | some q =>
      have hrun : p.run? [.take 0, .finish 0] = some q :=
        run?_cons.2 ⟨u, step?_iff.1 htake, run?_cons.2 ⟨q, step?_iff.1 hfinish, rfl⟩⟩
      have hreaches : p.Reaches q := ⟨_, hrun⟩
      simpa [htake, hfinish] using hreaches

/-- **The shutdown by one worker is one of the orders of steps**, so what is so of all of them is so of it. -/
theorem reaches_shutDown (p : WorkerPool α) : p.Reaches p.shutDown := by
  have hall : ∀ (action : Nat → PoolAction α) (ws : List Nat) (p : WorkerPool α),
      p.Reaches (ws.foldl (fun p w => (p.step? (action w)).getD p) p) := by
    intro action
    exact reaches_foldl fun p w => reaches_step p (action w)
  have hclose : p.Reaches p.close := reaches_step p .close
  have hdrained := (hclose.trans (hall .stop (List.range p.close.size) p.close)).trans (reaches_drain _)
  exact (hdrained.trans (hall .exit (List.range _) _)).trans (reaches_step _ .join)

/-! ## Workers and their jobs -/

/-- The job in the hands of a worker. -/
def jobInHand : WorkerState α → Option (Job α)
  | .busy job => some job
  | _ => none

/-- The jobs in the hands of workers. -/
def inHand (p : WorkerPool α) : List (Job α) := p.workers.filterMap jobInHand

/-- The steps that a worker still has to take, apart from taking jobs that wait: a busy one has to finish and
to go. -/
def effort : WorkerState α → Nat
  | .idle => 1
  | .busy _ => 2
  | .gone => 0

/-- The steps that workers still have to take: each job that waits is taken and finished. -/
def toDo (p : WorkerPool α) : Nat := 2 * p.queue.length + (p.workers.map effort).sum

/-- A worker that changes is one among the others, who stay as they are. -/
theorem perm_set {ws : List (WorkerState α)} {w : Nat} {s : WorkerState α} (h : ws[w]? = some s)
    (s' : WorkerState α) : ∃ others, ws.Perm (s :: others) ∧ (ws.set w s').Perm (s' :: others) := by
  obtain ⟨hw, rfl⟩ := List.getElem?_eq_some_iff.1 h
  exact ⟨ws.eraseIdx w, (List.getElem_cons_eraseIdx_perm hw).symm, List.set_perm_cons_eraseIdx hw s'⟩

/-- What the change of a worker does to the jobs in hand. -/
theorem inHand_set {ws : List (WorkerState α)} {w : Nat} {s : WorkerState α} (h : ws[w]? = some s)
    (s' : WorkerState α) :
    ∃ others, (ws.filterMap jobInHand).Perm ((jobInHand s).toList ++ others) ∧
      ((ws.set w s').filterMap jobInHand).Perm ((jobInHand s').toList ++ others) := by
  obtain ⟨others, hbefore, hafter⟩ := perm_set h s'
  have hcons : ∀ x : WorkerState α,
      (x :: others).filterMap jobInHand = (jobInHand x).toList ++ others.filterMap jobInHand := by
    intro x
    cases x with
    | idle => rfl
    | busy job => rfl
    | gone => rfl
  refine ⟨others.filterMap jobInHand, ?_, ?_⟩
  · rw [← hcons]
    exact hbefore.filterMap jobInHand
  · rw [← hcons]
    exact hafter.filterMap jobInHand

/-- What the change of a worker does to the steps that workers have to take. -/
theorem effort_set {ws : List (WorkerState α)} {w : Nat} {s : WorkerState α} (h : ws[w]? = some s)
    (s' : WorkerState α) :
    ((ws.set w s').map effort).sum + effort s = (ws.map effort).sum + effort s' := by
  obtain ⟨others, hbefore, hafter⟩ := perm_set h s'
  rw [(hbefore.map effort).sum_nat, (hafter.map effort).sum_nat, List.map_cons, List.map_cons, List.sum_cons,
    List.sum_cons]
  omega

/-- Workers have nothing to do when all of them have gone. -/
theorem effort_sum_eq_zero {ws : List (WorkerState α)} : (ws.map effort).sum = 0 ↔ ws.all isGone = true := by
  induction ws with
  | nil => simp
  | cons s ws ih =>
    rw [List.map_cons, List.sum_cons, List.all_cons, Nat.add_eq_zero_iff, ih, Bool.and_eq_true]
    cases s with
    | idle => simp [effort, isGone]
    | busy job => simp [effort, isGone]
    | gone => simp [effort, isGone]

/-- A worker that does not go leaves nobody gone who was not gone before. -/
theorem gone_of_mem_set {ws : List (WorkerState α)} {w : Nat} {s : WorkerState α} (hs : isGone s = false)
    (h : WorkerState.gone ∈ ws.set w s) : WorkerState.gone ∈ ws := by
  rcases List.mem_or_eq_of_mem_set h with h | h
  · exact h
  · rw [← h] at hs
    cases hs

theorem set_ne_nil {ws : List (WorkerState α)} (h : ws ≠ []) (w : Nat) (s : WorkerState α) : ws.set w s ≠ [] := by
  rw [Ne, List.set_eq_nil_iff]
  exact h

/-! ## The invariant -/

/-- **What is so of a pool after any steps.** -/
structure Sound (p : WorkerPool α) : Prop where
  /-- Jobs are taken in the order in which they were accepted. -/
  inOrder : p.accepted = p.taken ++ p.queue
  /-- A job that has been taken is in hand or finished. -/
  dealt : p.taken.Perm (p.inHand ++ p.finished)
  numbered : p.accepted.map (·.number) = List.range p.accepted.length
  staffed : p.workers ≠ []
  /-- A worker has gone only if no job waits and none will come. -/
  deserted : WorkerState.gone ∈ p.workers → p.closed = true ∧ p.queue = []
  asked : p.asked ≠ [] → p.closed = true
  joined : p.joined = true → p.closed = true ∧ p.workers.all isGone = true

theorem sound_create (threads : Nat) : Sound (create threads : WorkerPool α) where
  inOrder := rfl
  dealt := by
    have hidle : (create threads : WorkerPool α).inHand = [] := by
      apply List.filterMap_eq_nil_iff.2
      intro s hs
      rw [List.eq_of_mem_replicate hs]
      rfl
    rw [hidle]
    exact .nil
  numbered := rfl
  staffed := by
    intro h
    have hlength := congrArg List.length h
    simp only [create, List.length_replicate, List.length_nil] at hlength
    omega
  deserted := by
    intro h
    cases List.eq_of_mem_replicate h
  asked := by
    intro h
    exact absurd rfl h
  joined := by
    intro h
    cases h

/-- Only in a closed pool does a worker wake up while no job waits. -/
theorem Sound.closed_of_wakes (hp : Sound p) {w : Nat} (empty : p.queue = []) (h : p.wakes w = true) :
    p.closed = true := by
  unfold wakes at h
  rw [empty, List.isEmpty_nil, Bool.not_true, Bool.or_false, Bool.or_eq_true] at h
  rcases h with h | h
  · exact h
  · -- nobody is asked to stop before the pool is closed
    apply hp.asked
    intro hnone
    rw [hnone] at h
    cases h

/-- As long as a worker is there, no shutdown has ended. -/
theorem Sound.not_joined (hp : Sound p) {w : Nat} {s : WorkerState α} (h : p.workers[w]? = some s)
    (hs : isGone s = false) : p.joined ≠ true := by
  intro hjoined
  have hall := List.all_eq_true.1 (hp.joined hjoined).2 s (List.mem_of_getElem? h)
  rw [hs] at hall
  cases hall

/-- **Each step keeps the invariant.** -/
theorem Sound.step (hp : Sound p) (h : Step p a q) : Sound q := by
  -- one case for each rule; what a rule does not touch stays as it was
  cases h with
  | accept opened =>
    refine { hp with inOrder := ?_, numbered := ?_, deserted := ?_ }
    · show p.accepted ++ [_] = p.taken ++ (p.queue ++ [_])
      rw [hp.inOrder, List.append_assoc]
    · show (p.accepted ++ [p.nextJob _]).map (·.number) = List.range (p.accepted ++ [_]).length
      rw [List.map_append, hp.numbered, List.length_append, List.length_singleton, List.range_succ]
      rfl
    · -- nobody has gone from an open pool
      intro hgone
      rw [(hp.deserted hgone).1] at opened
      cases opened
  | refuse closed => exact hp
  | @take w job rest idle waiting =>
    obtain ⟨others, hbefore, hafter⟩ := inHand_set idle (.busy job)
    refine { hp with inOrder := ?_, dealt := ?_, staffed := set_ne_nil hp.staffed _ _, deserted := ?_, joined := ?_ }
    · show p.accepted = (p.taken ++ [job]) ++ rest
      rw [hp.inOrder, waiting, List.append_assoc]
      rfl
    · -- the job goes from the queue into the hands of the worker
      show (p.taken ++ [job]).Perm ((p.workers.set w (.busy job)).filterMap jobInHand ++ p.finished)
      have htaken := (hp.dealt.trans (hbefore.append_right p.finished)).cons job
      exact (List.perm_append_singleton job p.taken).trans (htaken.trans (hafter.append_right p.finished).symm)
    · intro hgone
      have hempty := (hp.deserted (gone_of_mem_set rfl hgone)).2
      rw [waiting] at hempty
      cases hempty
    · intro hjoined
      -- a pool with a worker that is still there has not been joined
      exact absurd hjoined (hp.not_joined idle rfl)
  | @finish w job busy =>
    obtain ⟨others, hbefore, hafter⟩ := inHand_set busy .idle
    refine { hp with dealt := ?_, staffed := set_ne_nil hp.staffed _ _, deserted := ?_, joined := ?_ }
    · -- the job goes from the hands of the worker to the finished ones
      show p.taken.Perm ((p.workers.set w .idle).filterMap jobInHand ++ (p.finished ++ [job]))
      have hmove : (job :: (others ++ p.finished)).Perm (others ++ (p.finished ++ [job])) := by
        rw [← List.append_assoc]
        exact (List.perm_append_singleton job _).symm
      have htaken := hp.dealt.trans (hbefore.append_right p.finished)
      exact (htaken.trans hmove).trans (hafter.append_right _).symm
    · intro hgone
      exact hp.deserted (gone_of_mem_set rfl hgone)
    · intro hjoined
      exact absurd hjoined (hp.not_joined busy rfl)
  | @exit w idle empty wakes =>
    obtain ⟨others, hbefore, hafter⟩ := inHand_set idle .gone
    have hclosed := hp.closed_of_wakes empty wakes
    refine { hp with dealt := ?_, staffed := set_ne_nil hp.staffed _ _, deserted := ?_, joined := ?_ }
    · show p.taken.Perm ((p.workers.set w .gone).filterMap jobInHand ++ p.finished)
      exact hp.dealt.trans ((hbefore.trans hafter.symm).append_right p.finished)
    · intro _
      exact ⟨hclosed, empty⟩
    · intro hjoined
      exact absurd hjoined (hp.not_joined idle rfl)
  | close =>
    refine { hp with deserted := ?_, asked := ?_, joined := ?_ }
    · intro hgone
      exact ⟨rfl, (hp.deserted hgone).2⟩
    · intro _
      rfl
    · intro hjoined
      exact ⟨rfl, (hp.joined hjoined).2⟩
  | stop closed =>
    refine { hp with asked := ?_ }
    intro _
    exact closed
  | join closed gone =>
    refine { hp with joined := ?_ }
    intro _
    exact ⟨closed, gone⟩

theorem Sound.run (hp : Sound p) (h : p.run? actions = some q) : Sound q := by
  induction actions generalizing p with
  | nil =>
    cases h
    exact hp
  | cons a actions ih =>
    obtain ⟨u, hstep, hrun⟩ := run?_cons.1 h
    exact ih (hp.step hstep) hrun

/-- Each accepted job waits, is in hand, or is finished. -/
theorem Sound.perm (hp : Sound p) : (p.finished ++ p.inHand ++ p.queue).Perm p.accepted := by
  rw [hp.inOrder]
  exact (List.perm_append_comm.trans hp.dealt.symm).append_right p.queue

/-- No job is accepted twice. -/
theorem Sound.nodup (hp : Sound p) : p.accepted.Nodup := by
  apply List.Nodup.of_map (·.number)
  rw [hp.numbered]
  exact List.nodup_range

/-- **Once all workers of a closed pool have gone, all is done.** -/
theorem Sound.all_finished (hp : Sound p) (hgone : p.workers.all isGone = true) :
    p.queue = [] ∧ p.finished.Perm p.accepted := by
  have hstate : ∀ s ∈ p.workers, s = .gone := by
    intro s hs
    have hgone := List.all_eq_true.1 hgone s hs
    cases s with
    | idle => cases hgone
    | busy job => cases hgone
    | gone => rfl
  -- there is a worker, so one has gone, and it went because nothing waited
  obtain ⟨s, hs⟩ := List.exists_mem_of_ne_nil p.workers hp.staffed
  have hqueue : p.queue = [] := (hp.deserted (hstate s hs ▸ hs)).2
  have hhand : p.inHand = [] := by
    apply List.filterMap_eq_nil_iff.2
    intro s hs
    rw [hstate s hs]
    rfl
  have hperm := hp.perm
  rw [hhand, hqueue, List.append_nil, List.append_nil] at hperm
  exact ⟨hqueue, hperm⟩

/-! ## The tasks that are accepted -/

/-- The task that is offered. -/
def task? : PoolAction α → Option α
  | .enqueue task => some task
  | _ => none

/-- The pool is closed. -/
def isClose : PoolAction α → Bool
  | .close => true
  | _ => false

/-- The tasks that are offered before the pool is closed. -/
def offered (actions : List (PoolAction α)) : List α :=
  (actions.takeWhile fun a => !isClose a).filterMap task?

theorem isClose_iff : isClose a = true ↔ a = .close := by
  cases a <;> simp [isClose]

/-- A pool that is closed stays closed and accepts nothing. -/
theorem step_of_closed (hp : p.closed = true) (h : Step p a q) : q.closed = true ∧ q.accepted = p.accepted := by
  cases h with
  | accept opened =>
    rw [hp] at opened
    cases opened
  | refuse => exact ⟨hp, rfl⟩
  | take => exact ⟨hp, rfl⟩
  | finish => exact ⟨hp, rfl⟩
  | exit => exact ⟨hp, rfl⟩
  | close => exact ⟨rfl, rfl⟩
  | stop => exact ⟨hp, rfl⟩
  | join => exact ⟨hp, rfl⟩

/-- An open pool accepts what it is offered, and only the closing closes it. -/
theorem step_of_open (hp : p.closed = false) (h : Step p a q) :
    q.closed = isClose a ∧ q.accepted.map (·.task) = p.accepted.map (·.task) ++ (task? a).toList := by
  cases h with
  | accept => exact ⟨hp, by simp [nextJob, task?]⟩
  | take => exact ⟨hp, by simp [task?]⟩
  | finish => exact ⟨hp, by simp [task?]⟩
  | exit => exact ⟨hp, by simp [task?]⟩
  | close => exact ⟨rfl, by simp [task?]⟩
  | refuse closed =>
    rw [hp] at closed
    cases closed
  | stop closed =>
    rw [hp] at closed
    cases closed
  | join closed =>
    rw [hp] at closed
    cases closed

theorem run_of_closed (hp : p.closed = true) (h : p.run? actions = some q) :
    q.closed = true ∧ q.accepted = p.accepted := by
  induction actions generalizing p with
  | nil =>
    cases h
    exact ⟨hp, rfl⟩
  | cons a actions ih =>
    obtain ⟨u, hstep, hrun⟩ := run?_cons.1 h
    obtain ⟨hu, haccepted⟩ := step_of_closed hp hstep
    rw [← haccepted]
    exact ih hu hrun

/-- **The accepted tasks are those that are offered before the pool is closed**, in that order. -/
theorem accepted_of_run (hp : p.closed = false) (h : p.run? actions = some q) :
    q.accepted.map (·.task) = p.accepted.map (·.task) ++ offered actions ∧ (q.closed = true ↔ .close ∈ actions) := by
  induction actions generalizing p with
  | nil =>
    cases h
    simp [offered, hp]
  | cons a actions ih =>
    obtain ⟨u, hstep, hrun⟩ := run?_cons.1 h
    obtain ⟨hu, haccepted⟩ := step_of_open hp hstep
    by_cases ha : isClose a = true
    · -- from here on nothing is accepted
      obtain rfl := isClose_iff.1 ha
      obtain ⟨hclosed, hsame⟩ := run_of_closed hu hrun
      simp [hclosed, hsame, haccepted, offered, isClose, task?]
    · rw [Bool.not_eq_true] at ha
      obtain ⟨hrest, hclosed⟩ := ih (hu.trans ha) hrun
      have hne : PoolAction.close ≠ a := by
        rintro rfl
        cases ha
      have hoffered : offered (a :: actions) = (task? a).toList ++ offered actions := by
        cases a with
        | close => cases ha
        | _ => rfl
      rw [hrest, haccepted, hoffered, List.append_assoc, hclosed, List.mem_cons]
      exact ⟨rfl, (or_iff_right hne).symm⟩

/-- A shutdown that has ended has been joined. -/
theorem joined_of_run (h : p.run? actions = some q) (hjoin : .join ∈ actions ∨ p.joined = true) :
    q.joined = true := by
  induction actions generalizing p with
  | nil =>
    cases h
    exact hjoin.resolve_left List.not_mem_nil
  | cons a actions ih =>
    obtain ⟨u, hstep, hrun⟩ := run?_cons.1 h
    apply ih hrun
    rcases hjoin with hjoin | hjoin
    · rcases List.mem_cons.1 hjoin with rfl | hjoin
      · cases hstep
        exact .inr rfl
      · exact .inl hjoin
    · right
      cases hstep with
      | join => rfl
      | _ => exact hjoin

/-! ## The end of a shutdown -/

/-- The steps of workers. -/
def ofWorker : PoolAction α → Bool
  | .take _ => true
  | .finish _ => true
  | .exit _ => true
  | _ => false

/-- **Each step of a worker brings down what workers have to do in a closed pool**, and no other step changes it. -/
theorem toDo_step (hp : p.closed = true) (h : Step p a q) :
    p.toDo = q.toDo + (if ofWorker a then 1 else 0) := by
  cases h with
  | accept opened =>
    rw [hp] at opened
    cases opened
  | refuse => rfl
  | @take w job rest idle waiting =>
    -- a job that waits stands for two steps, to take it and to finish it; the first one is this
    have heffort := effort_set idle (.busy job)
    simp only [effort] at heffort
    simp only [toDo, waiting, List.length_cons, ofWorker, if_true]
    omega
  | finish busy =>
    have heffort := effort_set busy .idle
    simp only [effort] at heffort
    simp only [toDo, ofWorker, if_true]
    omega
  | exit idle =>
    have heffort := effort_set idle .gone
    simp only [effort] at heffort
    simp only [toDo, ofWorker, if_true]
    omega
  | close => rfl
  | stop => rfl
  | join => rfl

theorem toDo_run (hp : p.closed = true) (h : p.run? actions = some q) :
    p.toDo = q.toDo + actions.countP ofWorker := by
  induction actions generalizing p with
  | nil =>
    cases h
    rfl
  | cons a actions ih =>
    obtain ⟨u, hstep, hrun⟩ := run?_cons.1 h
    have hu := (step_of_closed hp hstep).1
    rw [toDo_step hp hstep, ih hu hrun, List.countP_cons, Nat.add_assoc]

/-- **As long as there is something to do in a closed pool, a worker can take a step.** -/
theorem Sound.exists_step (hp : Sound p) (hclosed : p.closed = true) (h : p.toDo ≠ 0) :
    ∃ a u, ofWorker a = true ∧ Step p a u := by
  -- a worker who has not gone, and who takes part in whatever there is to do
  have hworker : ∃ (w : Nat) (s : WorkerState α), p.workers[w]? = some s ∧ isGone s = false := by
    cases hall : p.workers.all isGone with
    | true =>
      exfalso
      obtain ⟨hqueue, -⟩ := hp.all_finished hall
      simp [toDo, hqueue, effort_sum_eq_zero.2 hall] at h
    | false =>
      obtain ⟨s, hs, hgone⟩ := List.all_eq_false.1 hall
      obtain ⟨w, hw⟩ := List.getElem?_of_mem hs
      exact ⟨w, s, hw, by simpa using hgone⟩
  obtain ⟨w, s, hw, hs⟩ := hworker
  cases s with
  | gone => cases hs
  | busy job => exact ⟨.finish w, _, rfl, .finish hw⟩
  | idle =>
    cases hqueue : p.queue with
    | cons job rest => exact ⟨.take w, _, rfl, .take hw hqueue⟩
    | nil => exact ⟨.exit w, _, rfl, .exit hw hqueue (by simp [wakes, hclosed])⟩

/-- **When nothing is left to do in a closed pool, the shutdown can end.** -/
theorem exists_join (hclosed : p.closed = true) (h : p.toDo = 0) : ∃ q, Step p .join q := by
  have hsum : (p.workers.map effort).sum = 0 := by
    unfold toDo at h
    omega
  exact ⟨_, .join hclosed (effort_sum_eq_zero.1 hsum)⟩

/-! ## All interleavings -/

/-- **What is so of a pool after steps in any order.** -/
structure Orderly (actions : List (PoolAction α)) (p : WorkerPool α) : Prop where
  /-- The tasks that are offered before the pool is closed are accepted, in that order. -/
  accepted : p.accepted.map (·.task) = offered actions
  /-- They are taken in the order in which they were accepted. -/
  taken : p.taken <+: p.accepted
  /-- No job is there twice. -/
  once : p.accepted.Nodup
  /-- Each accepted job is finished, in the hands of a worker, or waits. -/
  dealt : (p.finished ++ p.inHand ++ p.queue).Perm p.accepted
  /-- After the closing a task is refused, which changes nothing. -/
  refused : .close ∈ actions → ∀ task, p.enqueue task = .error .shutDown ∧ p.step? (.enqueue task) = some p
  /-- A worker goes only if the pool is closed and no job waits. -/
  exits : ∀ w, (p.exit? w).isSome = true → .close ∈ actions ∧ p.queue = []
  /-- When the shutdown has ended, no job waits and each accepted job is finished. -/
  ended : .join ∈ actions → p.queue = [] ∧ p.finished.Perm p.accepted
  /-- After the closing, workers take the same number of steps in every order. -/
  bounded : .close ∈ actions → ∀ {more q}, p.run? more = some q → p.toDo = q.toDo + more.countP ofWorker
  /-- Until they have taken these steps, one of them can take a step, and then the shutdown can end. -/
  goesOn : .close ∈ actions →
    if p.toDo = 0 then (p.step? .join).isSome = true else ∃ a, ofWorker a = true ∧ (p.step? a).isSome = true

/-- **Whatever the number of workers and the order of the steps, each task that is accepted is carried out once**, and a
shutdown comes to its end when all of them are. -/
theorem run_orderly (threads : Nat) {actions : List (PoolAction α)} {p : WorkerPool α}
    (h : (create threads).run? actions = some p) : Orderly actions p := by
  -- all of it is read off the invariant and what the run has accepted
  have hp : Sound p := (sound_create threads).run h
  obtain ⟨haccepted, hclosed⟩ := accepted_of_run rfl h
  refine ⟨haccepted, ?_, hp.nodup, hp.perm, ?_, ?_, ?_, ?_, ?_⟩
  · rw [hp.inOrder]
    exact List.prefix_append ..
  · intro hclose task
    have hrefused := enqueue_of_closed (hclosed.2 hclose) task
    exact ⟨hrefused, step?_iff.2 (.refuse (hclosed.2 hclose))⟩
  · intro w hexit
    obtain ⟨u, hu⟩ := Option.isSome_iff_exists.1 hexit
    have hstep : Step p (.exit w) u := step?_iff.1 hu
    cases hstep with
    | exit idle empty wakes => exact ⟨hclosed.1 (hp.closed_of_wakes empty wakes), empty⟩
  · intro hjoin
    exact hp.all_finished (hp.joined (joined_of_run h (.inl hjoin))).2
  · intro hclose more q hmore
    exact toDo_run (hclosed.2 hclose) hmore
  · intro hclose
    split
    · next hzero =>
      obtain ⟨u, hu⟩ := exists_join (hclosed.2 hclose) hzero
      rw [step?_iff.2 hu]
      rfl
    · next hleft =>
      obtain ⟨a, u, ha, hu⟩ := hp.exists_step (hclosed.2 hclose) hleft
      refine ⟨a, ha, ?_⟩
      rw [step?_iff.2 hu]
      rfl

/-- Two workers, three tasks of which the last one comes too late, and a shutdown that waits for them. -/
def busyShift : List (PoolAction Char) :=
  [.enqueue 'a', .take 1, .enqueue 'b', .close, .enqueue 'c', .take 0, .finish 0, .stop 0, .exit 0, .finish 1,
    .stop 1, .exit 1, .join]

/-- The late task is refused, and the second one is finished before the first one. -/
theorem orderly_busyShift :
    ∃ p, (create 2).run? busyShift = some p ∧ Orderly busyShift p ∧
      p.accepted.map (·.task) = ['a', 'b'] ∧ p.finished.map (·.task) = ['b', 'a'] ∧ p.queue = [] := by
  refine ⟨_, rfl, run_orderly 2 rfl, ?_⟩
  decide

end Flatsheet.WorkerPool
