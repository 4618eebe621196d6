import Flatsheet.Proofs.Repair.Verification
import Mathlib.Data.Rat.Floor

/-!
# `Proofs.Repair.Budget` — how long a verification can take

A compiler that keeps finding new errors cannot keep a verification busy for ever. Three budgets bound it:
the attempts of each tier, the time to wait for the compiler in each attempt, and the time to wait for the
watcher at the end.

* **Loops.** `Ends turn a b` is a loop without any bound on its turns; waiting is such a loop, whose
  turns are `pollTurn` and `watchTurn`. Where the clock is `Paced` the deadline comes nearer with each turn,
  so the loop ends by itself before the bound that `waitFor` and `waitForWatcher` count down
  (`ends_takeTurns`).
* **Sleeps.** `Takes env n w w'` bounds the sleeps between two worlds. A wait takes as many as fit between
  now and its deadline (`waitFor_takes`, `waitForWatcher_takes`), nothing else takes any, and the rest is
  addition along the attempts (`attempts_takes`, `bothTiers_takes`).
* **Attempts and polls** are counted along `Tried` and `TriedBoth`.
-/

namespace Flatsheet.Repair

open Text Log

variable {σ : Type} {env : Surroundings σ} {o : VerifyOptions} {w w' w'' : σ} {d : Dealing}
  {ds : List Dealing} {n m : Nat}

/-! ## Loops -/

section

variable {α β : Type} {turn : α → α ⊕ β} {out : α → β}

/-- **A loop ends with a result**: it takes turns until one of them has the result. -/
inductive Ends (turn : α → α ⊕ β) : α → β → Prop
  | now {a : α} {b : β} (done : turn a = .inr b) : Ends turn a b
  | later {a a' : α} {b : β} (goes_on : turn a = .inl a') (rest : Ends turn a' b) : Ends turn a b

/-- So many turns of a loop at most, and what comes of it if none of them has a result. -/
def takeTurns (turn : α → α ⊕ β) (out : α → β) : Nat → α → β
  | 0, a => out a
  | n + 1, a =>
    match turn a with
    | .inr b => b
    | .inl a' => takeTurns turn out n a'

/-- **A loop whose turns come nearer to its end does not notice a bound on its turns**, if the bound leaves
it enough of them. -/
theorem ends_takeTurns (distance : α → Nat) (due : ∀ a, distance a = 0 → turn a = .inr (out a))
    (nearer : ∀ a a', turn a = .inl a' → distance a' < distance a) {a : α} (h : distance a ≤ n) :
    Ends turn a (takeTurns turn out n a) := by
  induction n generalizing a with
  | zero => exact .now (due a (Nat.le_zero.1 h))
  | succ n ih =>
    rw [takeTurns]
    cases hturn : turn a with
    | inr b => exact .now hturn
    | inl a' =>
      have hlt := nearer a a' hturn
      exact .later hturn (ih (by omega))

end

/-! ## Counting looks -/

/-- One look takes the time between two looks off the wait. -/
theorem looksIn_of_pos {interval wait : Int} (hw : 0 < wait) (hi : 0 < interval) :
    looksIn interval wait = looksIn interval (wait - interval) + 1 := by
  have hshift : wait + interval - 1 = wait - interval + interval - 1 + 1 * interval := by omega
  have hnonneg : 0 ≤ (wait - interval + interval - 1) / interval := Int.ediv_nonneg (by omega) hi.le
  rw [looksIn, looksIn, hshift, Int.add_mul_ediv_right _ _ hi.ne']
  omega

theorem looksIn_mono {interval wait wait' : Int} (hi : 0 < interval) (h : wait ≤ wait') :
    looksIn interval wait ≤ looksIn interval wait' :=
  Int.toNat_le_toNat (Int.ediv_le_ediv hi (by omega))

/-- **As many looks fit into a wait as intervals are needed to fill it.** -/
theorem looksIn_eq_ceil {interval wait : Int} (hi : 0 < interval) :
    looksIn interval wait = ⌈(wait : ℚ) / interval⌉₊ := by
  have hpos : (0 : ℚ) < interval := by exact_mod_cast hi
  refine eq_of_forall_ge_iff fun n => ?_
  have hceil : (wait : ℚ) / interval ≤ n ↔ wait ≤ n * interval := by
    rw [div_le_iff₀ hpos]
    exact_mod_cast Iff.rfl
  have hlooks : looksIn interval wait ≤ n ↔ wait + interval - 1 < (n + 1) * interval := by
    rw [looksIn, Int.toNat_le, ← Int.lt_add_one_iff, Int.ediv_lt_iff_lt_mul hi]
  rw [Nat.ceil_le, hceil, hlooks, Int.add_mul, Int.one_mul]
  omega

/-! ## The clock -/

/-- **Time passes**: by what was asked for in each sleep, and nothing else that happens while the
verification waits sets the clock back. -/
structure Paced (env : Surroundings σ) : Prop where
  sleep : ∀ ms w, env.now w + ms ≤ env.now (env.sleep ms w)
  tail : ∀ count w, env.now w ≤ env.now (env.tail count w).2
  isCancelled : ∀ w, env.now w ≤ env.now (env.isCancelled w).2

/-- The looks that there is time for until a deadline. -/
def looksLeft (env : Surroundings σ) (o : VerifyOptions) (deadline : Int) (w : σ) : Nat :=
  looksIn o.interval (deadline - env.now w)

theorem interval_pos (o : VerifyOptions) : 0 < o.interval := by
  have h : 1 ≤ o.interval := le_max_right _ _
  omega

/-- At the beginning of a wait there is time for all the looks that fit into it. -/
theorem looksLeft_of_now (wait : Int) :
    looksLeft env o (env.now w + wait) w = looksIn o.interval wait := by
  rw [looksLeft, add_sub_cancel_left]

theorem due_of_looksLeft {deadline : Int} (h : looksLeft env o deadline w = 0) : deadline ≤ env.now w := by
  by_contra hpending
  have hwait : 0 < deadline - env.now w := by omega
  have hpos := looksIn_of_pos hwait (interval_pos o)
  rw [looksLeft] at h
  omega

/-- **A look takes one off the looks that are left.** -/
theorem looksLeft_of_pending {deadline : Int} (h : ¬ deadline ≤ env.now w)
    (hlater : env.now w + o.interval ≤ env.now w') :
    looksLeft env o deadline w' + 1 ≤ looksLeft env o deadline w := by
  have hmono : looksIn o.interval (deadline - env.now w') ≤
      looksIn o.interval (deadline - env.now w - o.interval) := looksIn_mono (interval_pos o) (by omega)
  have hwait : 0 < deadline - env.now w := by omega
  rw [looksLeft, looksLeft, looksIn_of_pos hwait (interval_pos o)]
  omega

/-! ## Sleeps -/

/-- The verification sleeps. -/
def Dealing.isSleep : Dealing → Bool
  | slept _ => true
  | _ => false

/-- **What leads from one world to another takes so many sleeps at most.** -/
def Takes (env : Surroundings σ) (n : Nat) (w w' : σ) : Prop :=
  ∃ ds, Dealings env w ds w' ∧ ds.countP Dealing.isSleep ≤ n

namespace Takes

theorem refl (w : σ) : Takes env 0 w w := ⟨[], .nil, Nat.le_refl 0⟩

theorem trans (h : Takes env n w w') (h' : Takes env m w' w'') : Takes env (n + m) w w'' := by
  obtain ⟨ds, hds, hn⟩ := h
  obtain ⟨es, hes, hm⟩ := h'
  refine ⟨ds ++ es, hds.append hes, ?_⟩
  rw [List.countP_append]
  omega

theorem mono (h : Takes env n w w') (hnm : n ≤ m) : Takes env m w w' := by
  obtain ⟨ds, hds, hn⟩ := h
  exact ⟨ds, hds, hn.trans hnm⟩

theorem slept (env : Surroundings σ) (ms : Int) (w : σ) : Takes env 1 w (env.sleep ms w) :=
  ⟨[.slept ms], .single rfl, Nat.le_refl 1⟩

/-- Dealings without a sleep. -/
theorem awake (h : Dealings env w ds w') (hds : ∀ d ∈ ds, d.isSleep = false) : Takes env 0 w w' := by
  refine ⟨ds, h, ?_⟩
  rw [Nat.le_zero, List.countP_eq_zero]
  simpa using hds

theorem single (h : d.Leads env w w') (hd : d.isSleep = false) : Takes env 0 w w' :=
  awake (.single h) (by simpa using hd)

/-- Removals take no sleep. -/
theorem removals {paths : List Text} (h : Dealings env w ds w')
    (hpaths : ds.map Dealing.removedPath? = paths.map some) : Takes env 0 w w' := by
  refine awake h fun d hd => ?_
  have hremoval := isRemovalOf_of_map hpaths d hd
  cases d with
  | removed => rfl
  | _ => exact absurd hremoval id

/-- Nor do writes. -/
theorem writes {paths : List Text} (h : Dealings env w ds w') (hwrites : ∀ d ∈ ds, d.IsWriteTo paths) :
    Takes env 0 w w' := by
  refine awake h fun d hd => ?_
  have hwrite := hwrites d hd
  cases d with
  | wrote => rfl
  | _ => exact absurd hwrite id

end Takes

/-! ## Waiting -/

section

variable (env o)

/-- One turn of waiting for the compiler. -/
def pollTurn (deadline : Int) (r : Run σ) : Run σ ⊕ PollStatus × Run σ :=
  if deadline ≤ env.now r.world then .inr (.timedOut, r)
  else match env.isCancelled r.world with
    | (true, world) => .inr (.cancelled, { r with world })
    | (false, world) =>
      match look env o { r with world } with
      | (some status, r) => .inr (status, r)
      | (none, r) => .inl r

/-- One turn of waiting for the watcher. -/
def watchTurn (deadline : Int) (r : Run σ) : Run σ ⊕ Except Text Unit × Run σ :=
  if deadline ≤ env.now r.world then .inr (.ok (), r)
  else match readNewLines env o { r with world := env.sleep o.interval r.world } with
    | (.error m, r) => .inr (.error m, r)
    | (.ok ls, r) => if mentions ls o.finishedMarkers then .inr (.ok (), r) else .inl r

theorem waitFor_eq_takeTurns (deadline : Int) (looks : Nat) (r : Run σ) :
    waitFor env o deadline looks r =
      takeTurns (pollTurn env o deadline) (fun r => (.timedOut, r)) looks r := by
  induction looks generalizing r with
  | zero => rfl
  | succ looks ih =>
    rw [waitFor, takeTurns, pollTurn]
    by_cases hdue : deadline ≤ env.now r.world
    · rw [if_pos hdue, if_pos hdue]
    · rw [if_neg hdue, if_neg hdue]
      rcases env.isCancelled r.world with ⟨_ | _, world⟩
      · dsimp only
        rcases look env o { r with world } with ⟨_ | status, r'⟩
        · exact ih r'
        · rfl
      · rfl

theorem waitForWatcher_eq_takeTurns (deadline : Int) (looks : Nat) (r : Run σ) :
    waitForWatcher env o deadline looks r =
      takeTurns (watchTurn env o deadline) (fun r => (.ok (), r)) looks r := by
  induction looks generalizing r with
  | zero => rfl
  | succ looks ih =>
    rw [waitForWatcher, takeTurns, watchTurn]
    by_cases hdue : deadline ≤ env.now r.world
    · rw [if_pos hdue, if_pos hdue]
    · rw [if_neg hdue, if_neg hdue]
      rcases readNewLines env o { r with world := env.sleep o.interval r.world } with ⟨m | ls, r'⟩
      · rfl
      · by_cases hmarked : mentions ls o.finishedMarkers = true
        · simp only [if_pos hmarked]
        · simp only [if_neg hmarked]
          exact ih r'

end

/-- Reading the log is all that happens when the new lines are read. -/
theorem readNewLines_world (env : Surroundings σ) (o : VerifyOptions) (r : Run σ) :
    (readNewLines env o r).2.world = (env.tail o.tailLines r.world).2 := by
  rw [readNewLines]
  split <;> next h => exact (congrArg Prod.snd h).symm

theorem describe_world (es : List CompileError) (r : Run σ) :
    (es.foldl (fun r e => r.note .debug "poll".toList e.describe) r).world = r.world := by
  induction es generalizing r with
  | nil => rfl
  | cons e es ih => exact ih _

/-- A look is a sleep, and then the log may be read. -/
theorem look_world (env : Surroundings σ) (o : VerifyOptions) (r : Run σ) : (look env o r).2.world = env.sleep o.interval r.world ∨
    (look env o r).2.world = (env.tail o.tailLines (env.sleep o.interval r.world)).2 := by
  have hread := readNewLines_world env o
    { r with world := env.sleep o.interval r.world }
  simp only [look]
  split
  · exact .inl rfl
  · right
    split
    · next h => rw [h] at hread; exact hread
    · next h =>
      rw [h] at hread
      split
      · exact hread
      · rw [describe_world]
        exact hread
      · exact hread

theorem takes_read (env : Surroundings σ) (count : Nat) (w : σ) : Takes env 0 w (env.tail count w).2 :=
  .single (d := .readLog count _) rfl rfl

theorem look_takes (r : Run σ) : Takes env 1 r.world (look env o r).2.world := by
  rcases look_world env o r with h | h
  · rw [h]
    exact .slept env _ _
  · rw [h]
    exact (Takes.slept env _ _).trans (takes_read env _ _)

namespace Paced

theorem look_later (paced : Paced env) (r : Run σ) :
    env.now r.world + o.interval ≤ env.now (look env o r).2.world := by
  have hsleep := paced.sleep o.interval r.world
  rcases look_world env o r with h | h
  · rwa [h]
  · rw [h]
    exact hsleep.trans (paced.tail _ _)

/-- Each turn of waiting for the compiler that does not end it takes a look off those that are left. -/
theorem pollTurn_nearer (paced : Paced env) {deadline : Int} {r r' : Run σ}
    (h : pollTurn env o deadline r = .inl r') :
    looksLeft env o deadline r'.world < looksLeft env o deadline r.world := by
  rw [pollTurn] at h
  split at h
  · cases h
  · next hpending =>
    split at h
    · cases h
    · next world hasked =>
      have hasked' : env.now r.world ≤ env.now world := by
        have hle := paced.isCancelled r.world
        rwa [hasked] at hle
      have hlater := paced.look_later (o := o) { r with world }
      split at h
      · cases h
      · next hlook =>
        cases h
        rw [hlook] at hlater
        exact looksLeft_of_pending hpending (by dsimp only at hlater; omega)

/-- So does each turn of waiting for the watcher. -/
theorem watchTurn_nearer (paced : Paced env) {deadline : Int} {r r' : Run σ}
    (h : watchTurn env o deadline r = .inl r') :
    looksLeft env o deadline r'.world < looksLeft env o deadline r.world := by
  have hread := readNewLines_world env o
    { r with world := env.sleep o.interval r.world }
  have hlater := (paced.sleep o.interval r.world).trans (paced.tail o.tailLines _)
  rw [← hread] at hlater
  rw [watchTurn] at h
  split at h
  · cases h
  · next hpending =>
    split at h
    · cases h
    · next hls =>
      rw [hls] at hlater
      split at h
      · cases h
      · cases h
        exact looksLeft_of_pending hpending hlater

/-- **Waiting for the compiler ends by itself.** -/
theorem waitFor_ends (paced : Paced env) {deadline : Int} {looks : Nat} {r : Run σ}
    (h : looksLeft env o deadline r.world ≤ looks) :
    Ends (pollTurn env o deadline) r (waitFor env o deadline looks r) := by
  let distance : Run σ → Nat := fun r => looksLeft env o deadline r.world
  have hdue : ∀ r, distance r = 0 → pollTurn env o deadline r = .inr (.timedOut, r) :=
    fun r hr => if_pos (due_of_looksLeft hr)
  have hnearer : ∀ r r', pollTurn env o deadline r = .inl r' → distance r' < distance r :=
    fun r r' => paced.pollTurn_nearer
  rw [waitFor_eq_takeTurns]
  exact ends_takeTurns distance hdue hnearer h

/-- **Waiting for the watcher ends by itself.** -/
theorem waitForWatcher_ends (paced : Paced env) {deadline : Int} {looks : Nat} {r : Run σ}
    (h : looksLeft env o deadline r.world ≤ looks) :
    Ends (watchTurn env o deadline) r (waitForWatcher env o deadline looks r) := by
  let distance : Run σ → Nat := fun r => looksLeft env o deadline r.world
  have hdue : ∀ r, distance r = 0 → watchTurn env o deadline r = .inr (.ok (), r) :=
    fun r hr => if_pos (due_of_looksLeft hr)
  have hnearer : ∀ r r', watchTurn env o deadline r = .inl r' → distance r' < distance r :=
    fun r r' => paced.watchTurn_nearer
  rw [waitForWatcher_eq_takeTurns]
  exact ends_takeTurns distance hdue hnearer h

/-- **Waiting for the compiler takes the looks that there is time for.** -/
theorem waitFor_takes (paced : Paced env) (deadline : Int) (looks : Nat) (r : Run σ) :
    Takes env (looksLeft env o deadline r.world) r.world (waitFor env o deadline looks r).2.world := by
  induction looks generalizing r with
  | zero => exact (Takes.refl _).mono (Nat.zero_le _)
  | succ looks ih =>
    rw [waitFor]
    split
    · exact (Takes.refl _).mono (Nat.zero_le _)
    · next hpending =>
      split
      · next world hasked =>
        exact (Takes.single (d := .asked true) hasked rfl).mono (Nat.zero_le _)
      · next world hasked =>
        have hawake : Takes env 0 r.world world := .single (d := .asked false) hasked rfl
        have hasked' : env.now r.world ≤ env.now world := by
          have hle := paced.isCancelled r.world
          rwa [hasked] at hle
        have hlater := paced.look_later (o := o) { r with world }
        have htakes := hawake.trans (look_takes (o := o) { r with world })
        -- whether or not this look ends the wait, it is one of those there was time for
        have hleft : looksLeft env o deadline (look env o { r with world }).2.world + 1 ≤
            looksLeft env o deadline r.world :=
          looksLeft_of_pending hpending (by dsimp only at hlater; omega)
        split
        · next hlook =>
          rw [hlook] at htakes
          exact htakes.mono (by omega)
        · next hlook =>
          rw [hlook] at htakes hleft
          exact (htakes.trans (ih _)).mono (by dsimp only at hleft ⊢; omega)

/-- **Waiting for the watcher takes the looks that there is time for.** -/
theorem waitForWatcher_takes (paced : Paced env) (deadline : Int) (looks : Nat) (r : Run σ) :
    Takes env (looksLeft env o deadline r.world) r.world
      (waitForWatcher env o deadline looks r).2.world := by
  induction looks generalizing r with
  | zero => exact (Takes.refl _).mono (Nat.zero_le _)
  | succ looks ih =>
    rw [waitForWatcher]
    split
    · exact (Takes.refl _).mono (Nat.zero_le _)
    · next hpending =>
      have hread := readNewLines_world env o
        { r with world := env.sleep o.interval r.world }
      have hlater := (paced.sleep o.interval r.world).trans (paced.tail o.tailLines _)
      have htakes := (Takes.slept env o.interval r.world).trans (takes_read env o.tailLines _)
      rw [← hread] at hlater htakes
      have hleft := looksLeft_of_pending hpending hlater
      split
      · next hls =>
        rw [hls] at htakes
        exact htakes.mono (by omega)
      · next hls =>
        rw [hls] at htakes hleft
        split
        · exact htakes.mono (by omega)
        · exact (htakes.trans (ih _)).mono (by dsimp only at hleft ⊢; omega)

end Paced

/-! ## The phases -/

theorem removeOutputs_takes (env : Surroundings σ) (files : List Candidate) (w : σ) :
    Takes env 0 w (removeOutputs env files w) := by
  obtain ⟨ds, hds, hpaths⟩ := removeOutputs_spec env files w
  exact .removals hds hpaths

theorem takeBaseline_takes (stage : Text) (r : Run σ) :
    Takes env 0 r.world (takeBaseline env o stage r).2.world := by
  have hread := takes_read env o.tailLines r.world
  rw [takeBaseline]
  split <;> next h => rw [h] at hread; exact hread

theorem writeCandidates_takes (files : List Candidate) (w : σ) :
    Takes env 0 w (writeCandidates env files w).2 := by
  obtain ⟨ds, hds, hwrites, -⟩ := writeCandidates_spec env files w
  exact .writes hds hwrites

/-- Submitting takes no sleep. -/
theorem submit_takes (env : Surroundings σ) (o : VerifyOptions) (r : Run σ) : Takes env 0 r.world (submit env o r).2.world := by
  have hremove := removeOutputs_takes env r.files r.world
  have hbase := hremove.trans (takeBaseline_takes (o := o) "submit".toList
    { r with world := removeOutputs env r.files r.world })
  simp only [submit]
  split
  · next h =>
    rw [h] at hbase
    exact hbase
  · next r₁ h =>
    rw [h] at hbase
    have hwrite := hbase.trans (writeCandidates_takes r₁.files r₁.world)
    split <;> next hw => rw [hw] at hwrite; exact hwrite

/-- Repairs take no dealings at all. -/
theorem repairAfter_world (a : Attempt) (last : Bool) (r : Run σ) :
    (repairAfter a last r).2.world = r.world := by
  rw [repairAfter]
  split <;> rfl

theorem repairBefore_world (a : Attempt) (r : Run σ) : (repairBefore a r).2.world = r.world := by
  rw [repairBefore]
  split <;> rfl

/-- Polling takes what fits into the time to wait for the compiler. -/
theorem poll_takes (paced : Paced env) (r : Run σ) :
    Takes env (looksIn o.interval o.compileWait) r.world (poll env o r).2.world := by
  have htakes := paced.waitFor_takes (o := o) (env.now r.world + o.compileWait)
    (env.patience o.interval o.compileWait)
    { r.enter .polling with
      result := { (r.enter .polling).result with
        pollCycles := (r.enter .polling).result.pollCycles + 1 } }
  exact htakes.mono (Nat.le_of_eq (looksLeft_of_now _))

/-- **An attempt takes what fits into the time to wait for the compiler**, however it leaves off. -/
theorem compile_takes (paced : Paced env) (a : Attempt) (last : Bool) (r : Run σ) :
    Takes env (looksIn o.interval o.compileWait) r.world (compile env o a last r).2.world := by
  have hsubmit := submit_takes env o (r.enter .submitted)
  rw [compile]
  split
  · next h =>
    rw [h] at hsubmit
    exact hsubmit.mono (Nat.zero_le _)
  · next h =>
    rw [h] at hsubmit
    exact hsubmit.mono (Nat.zero_le _)
  · next r₁ h =>
    rw [h] at hsubmit
    have hpoll := (hsubmit.trans (poll_takes (o := o) paced r₁)).mono (Nat.le_of_eq (Nat.zero_add _))
    split <;> next hp => rw [hp] at hpoll; first | exact hpoll | (rw [repairAfter_world]; exact hpoll)

theorem attempt_takes (paced : Paced env) (tier : Tier) (last : Bool) (r : Run σ) :
    Takes env (looksIn o.interval o.compileWait) r.world (attempt env o tier last r).2.world := by
  simp only [attempt]
  split
  · next h => exact (Takes.single (d := .asked true) h rfl).mono (Nat.zero_le _)
  · next world h =>
    have hasked : Takes env 0 r.world world := .single (d := .asked false) h rfl
    have hcompile := compile_takes (o := o) paced
      (repairBefore { cycle := r.result.attempts.length + 1, tier } { r with world }).1 last
      (repairBefore { cycle := r.result.attempts.length + 1, tier } { r with world }).2
    rw [repairBefore_world] at hcompile
    exact (hasked.trans hcompile).mono (Nat.le_of_eq (Nat.zero_add _))

/-- **The attempts of a tier**, by induction on those that are left. -/
theorem attempts_takes (paced : Paced env) (tier : Tier) (none : AttemptOutcome) (left : Nat)
    (r : Run σ) : Takes env (left * looksIn o.interval o.compileWait) r.world
      (attempts env o tier none left r).2.world := by
  induction left generalizing none r with
  | zero => exact (Takes.refl _).mono (Nat.zero_le _)
  | succ left ih =>
    have hfirst := attempt_takes (o := o) paced tier (left = 0) r
    rw [attempts]
    split
    · next r' h =>
      rw [h] at hfirst
      refine (hfirst.trans (ih .retry r')).mono (Nat.le_of_eq ?_)
      rw [Nat.succ_mul, Nat.add_comm]
    · next h =>
      rw [h] at hfirst
      exact hfirst.mono (Nat.le_mul_of_pos_left _ (Nat.succ_pos left))

theorem bothTiers_takes (paced : Paced env) (r : Run σ) :
    Takes env ((o.maxRetries.toNat + o.maxEscalations.toNat) * looksIn o.interval o.compileWait)
      r.world (bothTiers env o r).2.world := by
  have hstandard := attempts_takes (o := o) paced .standard .escalate o.maxRetries.toNat r
  rw [bothTiers, Nat.add_mul]
  split
  · next r' h =>
    rw [h] at hstandard
    exact hstandard.trans (attempts_takes paced .aggressive .exhausted o.maxEscalations.toNat r')
  · next h =>
    rw [h] at hstandard
    exact hstandard.mono (Nat.le_add_right _ _)

theorem conclude_takes (ended : AttemptEnd) (r : Run σ) :
    Takes env 0 r.world (conclude env ended r).world := by
  obtain ⟨outcome, message, ds, hverdict, hds, -, -⟩ := conclude_spec env ended r
  exact .writes hds fun d hd => (hverdict.isWriteTo d hd).2

/-- Giving the watcher a chance takes what fits into the time for that. -/
theorem letWatcherNotice_takes (paced : Paced env) (r : Run σ) :
    Takes env (looksIn o.interval o.cleanupWait) r.world (letWatcherNotice env o r).world := by
  have hread := takes_read env o.tailLines r.world
  simp only [letWatcherNotice]
  generalize env.tail o.tailLines r.world = read at hread
  obtain ⟨reading, world⟩ := read
  have hwait : ∀ baseline : List Text, Takes env (looksIn o.interval o.cleanupWait) r.world
      (waitForWatcher env o (env.now world + o.cleanupWait) (env.patience o.interval o.cleanupWait)
        { r with world, baseline }).2.world := by
    intro baseline
    have htakes := paced.waitForWatcher_takes (o := o) (env.now world + o.cleanupWait)
      (env.patience o.interval o.cleanupWait) { r with world, baseline }
    refine (hread.trans htakes).mono (Nat.le_of_eq ?_)
    rw [Nat.zero_add, looksLeft_of_now]
  cases reading with
  | broken m => exact hread.mono (Nat.zero_le _)
  | unavailable m =>
    dsimp only
    split
    · exact hwait []
    · exact hwait []
  | lines ls =>
    dsimp only
    split
    · exact hwait ls
    · exact hwait ls

theorem cleanUp_takes (paced : Paced env) (r : Run σ) :
    Takes env (looksIn o.interval o.cleanupWait) r.world (cleanUp env o r).world := by
  obtain ⟨removals, hremovals, hpaths, -⟩ :=
    discardAll_spec env (leftovers r.files) (r.enter .cleaningUp)
  obtain ⟨r₁, hr₁⟩ : ∃ r₁, r₁ = (discardAll env (leftovers r.files) (r.enter .cleaningUp)).2 := ⟨_, rfl⟩
  obtain ⟨r₂, hr₂⟩ : ∃ r₂, r₂ = if r₁.files.isEmpty then r₁ else letWatcherNotice env o r₁ := ⟨_, rfl⟩
  have hdiscard : Takes env 0 r.world r₁.world := by
    rw [hr₁]
    exact .removals hremovals hpaths
  have hnotice : Takes env (looksIn o.interval o.cleanupWait) r₁.world r₂.world := by
    rw [hr₂]
    split
    · exact (Takes.refl _).mono (Nat.zero_le _)
    · exact letWatcherNotice_takes paced r₁
  obtain ⟨reversion, hrevert, -⟩ := revert_spec env o r₂
  have hclean : (cleanUp env o r).world = (revert env o r₂).world := by
    rw [hr₂, hr₁]
    rfl
  rw [hclean]
  exact ((hdiscard.trans hnotice).trans (.single hrevert rfl)).mono (by omega)

/-! ## Attempts and polls -/

/-- Each attempt goes on record once at most, and polls once at most. -/
theorem Attempted.counts {a : Attempt} {last : Bool} {opening : List VerifyState} {r : Run σ} {x : Exit}
    {fixes : List Alteration} {result : AttemptEnd × Run σ}
    (h : Attempted env a last opening r x fixes result) :
    result.2.result.attempts.length ≤ r.result.attempts.length + 1 ∧
      result.2.result.pollCycles ≤ r.result.pollCycles + 1 := by
  have hrecorded : (x.recorded { a with fixes := a.fixes ++ fixes } last).length ≤ 1 := by
    rw [Exit.recorded]
    split
    · exact Nat.le_refl 1
    · exact Nat.zero_le 1
  have hpolls : x.polls ≤ 1 := by
    cases x <;> simp only [Exit.polls, Nat.zero_le, Nat.le_refl]
  rw [h.attempts, h.polls, List.length_append]
  omega

theorem Tried.counts {tier : Tier} {none : AttemptOutcome} {left : Nat} {r : Run σ}
    {result : AttemptEnd × Run σ} (h : Tried env tier none left r result) :
    result.2.result.attempts.length ≤ r.result.attempts.length + left ∧
      result.2.result.pollCycles ≤ r.result.pollCycles + left := by
  induction h with
  | out => exact ⟨Nat.le_refl _, Nat.le_refl _⟩
  | done attempted =>
    have hcounts := attempted.counts
    omega
  | again attempted _ ih =>
    have hcounts := attempted.counts
    dsimp only at hcounts
    omega

theorem TriedBoth.counts {r : Run σ} {result : AttemptEnd × Run σ} (h : TriedBoth env o r result) :
    result.2.result.attempts.length ≤
        r.result.attempts.length + (o.maxRetries.toNat + o.maxEscalations.toNat) ∧
      result.2.result.pollCycles ≤
        r.result.pollCycles + (o.maxRetries.toNat + o.maxEscalations.toNat) := by
  cases h with
  | standard tried =>
    have hcounts := tried.counts
    omega
  | both tried escalated =>
    have hcounts := tried.counts
    have hcounts' := escalated.counts
    dsimp only at hcounts
    omega

/-! ## The whole verification -/

/-- **A verification keeps within its budgets.** A budget below zero counts as none. -/
structure WithinBudget (env : Surroundings σ) (o : VerifyOptions) (w world : σ) (result : Verification) :
    Prop where
  attempts : result.attempts.length ≤ o.maxRetries.toNat + o.maxEscalations.toNat
  polls : result.pollCycles ≤ o.maxRetries.toNat + o.maxEscalations.toNat
  sleeps : Takes env ((o.maxRetries.toNat + o.maxEscalations.toNat) *
    ⌈(o.compileWait : ℚ) / o.interval⌉₊ + ⌈(o.cleanupWait : ℚ) / o.interval⌉₊) w world
  /-- Waiting for the compiler is a loop that ends by itself, whenever it begins. -/
  polling_ends : ∀ r : Run σ,
    Ends (pollTurn env o (env.now r.world + o.compileWait))
      { r with result := { r.result with
        trace := r.result.trace.record .polling, pollCycles := r.result.pollCycles + 1 } }
      (poll env o r)
  /-- So is waiting for the watcher. -/
  watching_ends : ∀ r : Run σ,
    Ends (watchTurn env o (env.now r.world + o.cleanupWait)) r
      (waitForWatcher env o (env.now r.world + o.cleanupWait)
        (env.patience o.interval o.cleanupWait) r)

/-- **Every verification ends within its budgets**, whatever the log, the watcher, the user and the
reversion do, if time passes while it sleeps and it may look as often as there is time for. -/
theorem verify_within_budget (env : Surroundings σ) (o : VerifyOptions) (targets baseline : List Text)
    (w : σ) (paced : Paced env)
    (patient : ∀ wait, looksIn o.interval wait ≤ env.patience o.interval wait) :
    WithinBudget env o w (verify env o targets baseline w).world
      (verify env o targets baseline w).result := by
  have hceil : ∀ wait : Int, ⌈(wait : ℚ) / o.interval⌉₊ = looksIn o.interval wait := fun wait =>
    (looksIn_eq_ceil (interval_pos o)).symm
  have hleft : ∀ (wait : Int) (u : σ),
      looksLeft env o (env.now u + wait) u ≤ env.patience o.interval wait := by
    intro wait u
    rw [looksLeft_of_now]
    exact patient wait
  have hpolling : ∀ r : Run σ, Ends (pollTurn env o (env.now r.world + o.compileWait))
      { r with result := { r.result with
        trace := r.result.trace.record .polling, pollCycles := r.result.pollCycles + 1 } }
      (poll env o r) := fun r => paced.waitFor_ends (hleft o.compileWait r.world)
  have hwatching : ∀ r : Run σ, Ends (watchTurn env o (env.now r.world + o.cleanupWait)) r
      (waitForWatcher env o (env.now r.world + o.cleanupWait)
        (env.patience o.interval o.cleanupWait) r) := fun r =>
    paced.waitForWatcher_ends (hleft o.cleanupWait r.world)
  -- a verification that stages nothing neither tries nor sleeps
  cases hstage : stage o (env.tree w) targets with
  | error e =>
    obtain ⟨hworld, hresult⟩ := verify_unstaged env baseline hstage
    refine ⟨?_, ?_, ?_, hpolling, hwatching⟩
    · rw [hresult]
      exact Nat.zero_le _
    · rw [hresult]
      exact Nat.zero_le _
    · rw [hworld]
      exact (Takes.refl w).mono (Nat.zero_le _)
  | ok files =>
    obtain ⟨r, hr⟩ : ∃ r, r = bothTiers env o { world := w, baseline, files } := ⟨_, rfl⟩
    have hcounts := (bothTiers_spec env o { world := w, baseline, files }).counts
    have hsleeps := bothTiers_takes (o := o) paced { world := w, baseline, files }
    have hpursue : pursue env o { world := w, baseline, files } = conclude env r.1 r.2 := by
      rw [hr]
      rfl
    rw [← hr] at hcounts hsleeps
    obtain ⟨outcome, message, ds, -, -, -, hconclude⟩ := conclude_spec env r.1 r.2
    obtain ⟨hworld, -⟩ := verify_staged env baseline hstage
    have hresult := verify_result env baseline hstage
    rw [hpursue, hconclude] at hresult
    rw [hpursue] at hworld
    simp only [List.length_nil, Nat.zero_add] at hcounts
    refine ⟨?_, ?_, ?_, hpolling, hwatching⟩
    · rw [hresult]
      exact hcounts.1
    · rw [hresult]
      exact hcounts.2
    · rw [hworld, hceil, hceil]
      exact ((hsleeps.trans (conclude_takes r.1 r.2)).trans (cleanUp_takes paced _)).mono (by omega)

/-- Surroundings in which nothing happens but that time passes during sleeps. -/
def Surroundings.ticking : Surroundings (FileTree × Int) where
  tree := Prod.fst
  setTree t w := (t, w.2)
  tail _ w := (.lines [], w)
  now := Prod.snd
  sleep ms w := (w.1, w.2 + ms)
  isCancelled w := (false, w)
  revert _ w := (.done, w)

theorem paced_ticking : Paced Surroundings.ticking where
  sleep _ _ := Int.le_refl _
  tail _ _ := Int.le_refl _
  isCancelled _ := Int.le_refl _

/-- A compiler that does not answer costs all that the budgets allow: two attempts of two sleeps each and
three sleeps at the end, of five milliseconds. -/
theorem budget_of_mute_compiler :
    let t : FileTree := { entries := [(["a.scss".toList], .file "$a: b;".toList false)] }
    let o : VerifyOptions := { watchDirectory := "w".toList, maxRetries := 1, maxEscalations := 1,
                               pollInterval := 5, compileWait := 8, cleanupWait := 15 }
    let v := verify Surroundings.ticking o ["a.scss".toList] [] (t, 0)
    WithinBudget Surroundings.ticking o (t, 0) v.world v.result ∧ v.result.attempts.length = 2 ∧
      v.world.2 = 5 * (2 * 2 + 3) := by
  intro t o v
  have hbudget := verify_within_budget Surroundings.ticking o ["a.scss".toList] [] (t, 0) paced_ticking
    fun wait => Nat.le_refl _
  exact ⟨hbudget, by decide, by decide⟩

end Flatsheet.Repair
