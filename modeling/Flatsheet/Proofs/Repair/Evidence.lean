import Flatsheet.Proofs.Repair.Verification

/-!
# `Proofs.Repair.Evidence` — a verification succeeds on evidence only

The word of the compiler that it is done, or a compiled file, counts only if it cannot be an old one. That
rests on the order in which things are done, so this module follows the dealings of the one attempt that
succeeds, `Accepted`: former outputs are removed, the log is read, the candidates are written, and from then on
there is only waiting until the last look shows its `Signal`.

* **The look.** `look_signal` reads off the signal what the log has said: the lines since the
  submission name the end of the work and no error, and no pattern claims any of them.
* **The attempt.** `compile_accepted` puts the signal behind the submission with the same baseline and the
  same candidates; `bothTiers_accepted` puts earlier attempts in front.
* **What has been removed comes back** by a dealing of its own (`Dealings.turning_point`): a wait, in
  which the surroundings act, or a write to a candidate.
-/

namespace Flatsheet.Repair

open Text Log

variable {σ : Type} {env : Surroundings σ} {o : VerifyOptions} {w w' v : σ} {d : Dealing}
  {ds : List Dealing} {files : List Candidate}

/-! ## What the log says -/

/-- The first error about something is kept. -/
theorem distinct_ne_nil (e : CompileError) (es : List CompileError) :
    CompileError.distinct (e :: es) ≠ [] := by
  have hkept : ∀ (es kept : List CompileError), kept ≠ [] →
      es.foldl (fun kept e => if kept.any (·.same e) then kept else kept ++ [e]) kept ≠ [] := by
    intro es
    induction es with
    | nil => exact fun kept h => h
    | cons e es ih =>
      intro kept h
      rw [List.foldl_cons]
      apply ih
      split
      · exact h
      · simp
  exact hkept es [e] (by simp)

theorem unclaimed_of_readAll {ls : List Text} (h : CompileError.readAll ls = .ok []) :
    ∀ l ∈ ls, claim? l = none := by
  induction ls with
  | nil => simp
  | cons l ls ih =>
    rw [CompileError.readAll] at h
    split at h
    · next hl =>
      intro m hm
      rcases List.mem_cons.1 hm with rfl | hm
      · exact hl
      · exact ih h m hm
    · -- a claimed line makes an error, or the log cannot be read
      simp only [bind, Except.bind] at h
      split at h
      · cases h
      · split at h <;> cases h

/-- **A log without errors has no line that a pattern claims.** -/
theorem unclaimed_of_parse {ls : List Text} (h : CompileError.parse ls = .ok []) :
    ∀ l ∈ ls, claim? l = none := by
  rw [CompileError.parse] at h
  cases hread : CompileError.readAll ls with
  | error fault =>
    rw [hread] at h
    cases h
  | ok es =>
    rw [hread] at h
    cases es with
    | nil => exact unclaimed_of_readAll hread
    | cons e es => exact absurd (Except.ok.inj h) (distinct_ne_nil e es)

/-- Lines on which the candidates count as compiled. -/
theorem finished_of_judge {ls : List Text} (h : judge o ls = .ok (some .compiled)) :
    mentions ls o.finishedMarkers = true ∧ mentions ls o.errorIndicators = false ∧
      ∀ l ∈ ls, claim? l = none := by
  rw [judge] at h
  cases hparse : CompileError.parse ls with
  | error fault =>
    rw [hparse] at h
    cases h
  | ok es =>
    rw [hparse] at h
    simp only [Except.map, Except.ok.injEq] at h
    split at h
    · cases h
    · next hclean =>
      simp only [Bool.or_eq_true, Bool.not_eq_true', not_or, Bool.not_eq_false,
        List.isEmpty_iff, Bool.not_eq_true] at hclean
      obtain ⟨rfl, hindicated⟩ := hclean
      split at h
      · next hfinished => exact ⟨hfinished, hindicated, unclaimed_of_parse hparse⟩
      · cases h

/-! ## The last look -/

/-- **What the last look shows** on which candidates count as compiled, and its dealings. The log counts
from a baseline on. -/
inductive Signal (env : Surroundings σ) (o : VerifyOptions) (files : List Candidate)
    (baseline : List Text) : List Dealing → σ → Prop
  /-- All the compiled files are there. -/
  | compiled {v : σ} (all : ∀ f ∈ files, (env.tree v).present f.compiled = true) :
      Signal env o files baseline [.slept o.interval] v
  /-- The log says that the work is done, and tells of no error. -/
  | finished {v : σ} {ls : List Text}
      (marked : mentions (newLines o.tailLines baseline ls) o.finishedMarkers = true)
      (unindicated : mentions (newLines o.tailLines baseline ls) o.errorIndicators = false)
      (unclaimed : ∀ l ∈ newLines o.tailLines baseline ls, claim? l = none) :
      Signal env o files baseline [.slept o.interval, .readLog o.tailLines (.lines ls)] v

theorem look_signal {r r' : Run σ} (h : look env o r = (some .compiled, r')) :
    ∃ last, Dealings env r.world last r'.world ∧ Signal env o r.files r.baseline last r'.world := by
  simp only [look] at h
  split at h
  · next hall =>
    cases h
    refine ⟨[.slept o.interval], .single rfl, .compiled fun f hf => ?_⟩
    exact List.all_eq_true.1 hall f hf
  · rw [readNewLines] at h
    cases htail : env.tail o.tailLines (env.sleep o.interval r.world) with
    | mk reading world =>
      rw [htail] at h
      cases reading with
      | broken m => cases h
      | unavailable m =>
        -- an unreadable log says nothing
        have hsilent : judge o [] = .ok none := rfl
        simp only [hsilent] at h
        cases h
      | lines ls =>
        dsimp only at h
        split at h
        · cases h
        · cases h
        · next status hne hjudge =>
          cases h
          obtain ⟨hmarked, hunindicated, hunclaimed⟩ := finished_of_judge hjudge
          exact ⟨[.slept o.interval, .readLog o.tailLines (.lines ls)],
            .cons rfl (.cons htail .nil), .finished hmarked hunindicated hunclaimed⟩

/-- A look leaves the baseline as it is. -/
theorem look_baseline (env : Surroundings σ) (o : VerifyOptions) (r : Run σ) : (look env o r).2.baseline = r.baseline := by
  have hread : ∀ r : Run σ, (readNewLines env o r).2.baseline = r.baseline := by
    intro r
    rw [readNewLines]
    split <;> rfl
  have hdescribe : ∀ (es : List CompileError) (r : Run σ),
      (es.foldl (fun r e => r.note .debug "poll".toList e.describe) r).baseline = r.baseline := by
    intro es
    induction es with
    | nil => exact fun r => rfl
    | cons e es ih => exact fun r => ih _
  have hafter := hread { r with world := env.sleep o.interval r.world }
  simp only [look]
  split
  · rfl
  · split
    · next h => rw [h] at hafter; exact hafter
    · next h =>
      rw [h] at hafter
      split
      · exact hafter
      · exact (hdescribe ..).trans hafter
      · exact hafter

/-- **The wait for the compiler ends with the signal**, if it ends with success. -/
theorem waitFor_signal {deadline : Int} {looks : Nat} {r r' : Run σ}
    (h : waitFor env o deadline looks r = (.compiled, r')) :
    ∃ waits last, Dealings env r.world (waits ++ last) r'.world ∧ (∀ d ∈ waits, d.IsWaiting) ∧
      Signal env o r.files r.baseline last r'.world := by
  induction looks generalizing r with
  | zero => cases h
  | succ looks ih =>
    rw [waitFor] at h
    split at h
    · cases h
    · split at h
      · cases h
      · next world hasked =>
        -- before each look the user is asked, which is a wait too
        have hfirst : (Dealing.asked false).Leads env r.world world := hasked
        split at h
        · next status r₁ hlook =>
          cases h
          obtain ⟨last, hlast, hsignal⟩ := look_signal hlook
          refine ⟨[.asked false], last, .cons hfirst hlast, ?_, hsignal⟩
          intro d hd
          rw [List.mem_singleton.1 hd]
          trivial
        · next r₁ hlook =>
          have hquiet := look_quiet env o { r with world }
          have hbaseline := look_baseline env o { r with world }
          rw [hlook] at hquiet hbaseline
          obtain ⟨ls, hls, hwaiting⟩ := hquiet.dealings
          obtain ⟨waits, last, hwaits, hwaiting', hsignal⟩ := ih h
          have hfiles : r₁.files = r.files := hquiet.files
          have hbase : r₁.baseline = r.baseline := hbaseline
          rw [hfiles, hbase] at hsignal
          refine ⟨.asked false :: ls ++ waits, last, ?_, ?_, hsignal⟩
          · rw [List.append_assoc]
            exact .cons hfirst (hls.append hwaits)
          · intro d hd
            rcases List.mem_append.1 hd with hd | hd
            · rcases List.mem_cons.1 hd with rfl | hd
              · trivial
              · exact hwaiting d hd
            · exact hwaiting' d hd

/-! ## The attempt that succeeds -/

/-- What is seen of the log, if anything. -/
def LogReading.seen : LogReading → List Text
  | lines ls => ls
  | _ => []

/-- **The attempt that the candidates are accepted in.** Whatever has been done `earlier`, all former
outputs are removed, the log is read, the candidates are written as they are, and then there is only
waiting. The last look shows the signal, and the log counts from that reading on. -/
structure Accepted (env : Surroundings σ) (o : VerifyOptions) (files : List Candidate) (w v : σ) where
  earlier : List Dealing
  begun : σ
  removals : List Dealing
  cleared : σ
  reading : LogReading
  waits : List Dealing
  last : List Dealing
  earlier_lead : Dealings env w earlier begun
  removals_lead : Dealings env begun removals cleared
  removals_all : removals.map Dealing.removedPath? = (outputs files).map some
  since_lead : Dealings env cleared
    (.readLog o.tailLines reading :: files.map Candidate.putIn ++ (waits ++ last)) v
  waits_waiting : ∀ d ∈ waits, d.IsWaiting
  signal : Signal env o files reading.seen last v

/-- Something else may have been done before. -/
def Accepted.after {w₀ : σ} (a : Accepted env o files w v) (h : Dealings env w₀ ds w) :
    Accepted env o files w₀ v :=
  { a with earlier := ds ++ a.earlier, earlier_lead := h.append a.earlier_lead }

/-- **Submitting the candidates**, if it succeeds. -/
theorem submit_done {r r' : Run σ} (h : submit env o r = (.done, r')) :
    ∃ removals cleared reading, Dealings env r.world removals cleared ∧
      removals.map Dealing.removedPath? = (outputs r.files).map some ∧
      Dealings env cleared (.readLog o.tailLines reading :: r.files.map Candidate.putIn) r'.world ∧
      r'.baseline = reading.seen ∧ r'.files = r.files := by
  obtain ⟨removals, hremovals, hpaths⟩ := removeOutputs_spec env r.files r.world
  simp only [submit] at h
  split at h
  · cases h
  · next r₁ hbase =>
    -- the log is read for the baseline, or it could not be read
    have htaken : ∃ reading, (Dealing.readLog o.tailLines reading).Leads env
        (removeOutputs env r.files r.world) r₁.world ∧ r₁.baseline = reading.seen ∧
        r₁.files = r.files := by
      rw [takeBaseline] at hbase
      split at hbase
      · next ls world htail =>
        cases hbase
        exact ⟨.lines ls, htail, rfl, rfl⟩
      · next m world htail =>
        cases hbase
        exact ⟨.unavailable m, htail, rfl, rfl⟩
      · cases hbase
    obtain ⟨reading, hread, hbaseline, hfiles⟩ := htaken
    obtain ⟨ws, hws, -, hall⟩ := writeCandidates_spec env r₁.files r₁.world
    split at h
    · next world hwritten =>
      cases h
      rw [hwritten, hall (by rw [hwritten]), hfiles] at hws
      exact ⟨removals, _, reading, hremovals, hpaths, .cons hread hws, hbaseline, hfiles⟩
    · cases h

theorem repairAfter_ne_success (a : Attempt) (last : Bool) (r : Run σ) :
    (repairAfter a last r).1 ≠ .ok .success := by
  rw [repairAfter]
  split
  · simp only [close]
    split <;> (intro h; cases h)
  · simp only [close]
    split <;> (intro h; cases h)

theorem compile_accepted {a : Attempt} {last : Bool} {r r' : Run σ}
    (h : compile env o a last r = (.ok .success, r')) :
    Nonempty (Accepted env o r'.files r.world r'.world) := by
  rw [compile] at h
  split at h
  · cases h
  · cases h
  · next r₁ hsubmit =>
    -- an attempt succeeds only if it has submitted and then seen the signal
    obtain ⟨removals, cleared, reading, hremovals, hpaths, hwrites, hbaseline, hfiles⟩ :=
      submit_done hsubmit
    split at h
    · cases h
    · cases h
    · next r₂ hpoll =>
      cases h
      obtain ⟨waits, last, hwaits, hwaiting, hsignal⟩ := waitFor_signal hpoll
      have hquiet := poll_quiet env o r₁
      rw [hpoll] at hquiet
      have hfiles' : r₂.files = r.files := hquiet.files.trans hfiles
      have hsubmitted : r₁.files = r₂.files := hquiet.files.symm
      exact ⟨{
        earlier := []
        begun := r.world
        removals
        cleared
        reading
        waits
        last
        earlier_lead := .nil
        removals_lead := hremovals
        removals_all := by rw [hpaths]; exact congrArg (List.map some ∘ outputs) hfiles'.symm
        since_lead := by
          have hsince := hwrites.append hwaits
          rw [List.cons_append] at hsince
          exact hfiles' ▸ hsince
        waits_waiting := hwaiting
        signal := by
          rw [← hbaseline]
          exact hsubmitted ▸ hsignal }⟩
    · exact (repairAfter_ne_success _ _ _ (congrArg Prod.fst h)).elim
    · exact (repairAfter_ne_success _ _ _ (congrArg Prod.fst h)).elim

theorem attempt_accepted {tier : Tier} {last : Bool} {r r' : Run σ}
    (h : attempt env o tier last r = (.ok .success, r')) :
    Nonempty (Accepted env o r'.files r.world r'.world) := by
  simp only [attempt] at h
  split at h
  · cases h
  · next world hasked =>
    obtain ⟨accepted⟩ := compile_accepted h
    have hworld : (repairBefore { cycle := r.result.attempts.length + 1, tier }
        { r with world }).2.world = world := by
      rw [repairBefore]
      split <;> rfl
    rw [hworld] at accepted
    exact ⟨accepted.after (.single (d := .asked false) hasked)⟩

/-- The attempts before the one that succeeds come earlier. -/
theorem attempts_accepted {tier : Tier} {none : AttemptOutcome} {left : Nat} {r r' : Run σ}
    (h : attempts env o tier none left r = (.ok .success, r')) (hnone : none ≠ .success) :
    Nonempty (Accepted env o r'.files r.world r'.world) := by
  induction left generalizing none r with
  | zero =>
    cases h
    exact absurd rfl hnone
  | succ left ih =>
    rw [attempts] at h
    split at h
    · next r₁ hretry =>
      obtain ⟨x, fixes, hattempted⟩ := attempt_spec env o tier (left = 0) r
      rw [hretry] at hattempted
      obtain ⟨ds, hds, -, -⟩ := hattempted.dealings
      obtain ⟨accepted⟩ := ih h (by decide)
      exact ⟨accepted.after hds⟩
    · next ended r₁ hne hattempt =>
      cases h
      exact attempt_accepted hattempt

theorem bothTiers_accepted {r r' : Run σ} (h : bothTiers env o r = (.ok .success, r')) :
    Nonempty (Accepted env o r'.files r.world r'.world) := by
  rw [bothTiers] at h
  split at h
  · next r₁ hescalate =>
    have htried := attempts_spec env o .standard .escalate o.maxRetries.toNat r
    rw [hescalate] at htried
    obtain ⟨ds, hds, -, -⟩ := (htried.progress (by decide)).dealings
    obtain ⟨accepted⟩ := attempts_accepted h (by decide)
    exact ⟨accepted.after hds⟩
  · next ended r₁ hne htried =>
    cases h
    exact attempts_accepted htried (by decide)

/-! ## What has been removed -/

/-- **Something that does not hold at first and holds in the end** comes to hold with one of the dealings. -/
theorem Dealings.turning_point {P : σ → Prop} (h : Dealings env w ds w') (hw : ¬ P w) (hw' : P w') :
    ∃ before d after u u', ds = before ++ d :: after ∧ Dealings env w before u ∧ d.Leads env u u' ∧
      Dealings env u' after w' ∧ ¬ P u ∧ P u' := by
  induction h with
  | nil => exact absurd hw' hw
  | @cons w₀ w₁ w₂ d ds first others ih =>
    by_cases hw₁ : P w₁
    · exact ⟨[], d, ds, w₀, w₁, rfl, .nil, first, others, hw, hw₁⟩
    · obtain ⟨before, d', after, u, u', rfl, hbefore, hd', hafter, hu, hu'⟩ := ih hw₁ hw'
      exact ⟨d :: before, d', after, u, u', rfl, .cons first hbefore, hd', hafter, hu, hu'⟩

theorem Dealings.leads_of_mem (h : Dealings env w ds w') (hd : d ∈ ds) : ∃ u u', d.Leads env u u' := by
  obtain ⟨before, after, rfl⟩ := List.append_of_mem hd
  obtain ⟨u, -, hrest⟩ := h.split
  cases hrest with
  | @cons _ u' _ _ _ hlead _ => exact ⟨u, u', hlead⟩

/-- **A path that has been removed is gone** as long as there are only more removals. -/
theorem not_present_of_removal {path : Text} (h : Dealings env w ds w')
    (hremovals : ∀ d ∈ ds, d.removedPath?.isSome) (hd : .removed path (.ok ()) ∈ ds) :
    (env.tree w').present path = false := by
  obtain ⟨before, after, rfl⟩ := List.append_of_mem hd
  obtain ⟨u, -, hrest⟩ := h.split
  cases hrest with
  | @cons _ u' _ _ _ hremoval hafter =>
    have hgone : (env.tree u').present path = false := by
      rcases remove_leads hremoval with ⟨-, ht⟩ | ⟨e, he, -⟩
      · exact FileTree.not_present_of_remove ht
      · cases he
    refine hafter.keeps (P := fun u => (env.tree u).present path = false)
      (fun d hd u u' hlead hu => (within_of_leads (hremovals d ?_) hlead).not_present hu) hgone
    exact List.mem_append_right _ (List.mem_cons_of_mem _ hd)

/-- **Writing a candidate changes what is along a path**: the candidate itself, its temporary file or a
directory made for it is there. -/
def Candidate.Crosses (f : Candidate) (t t' : FileTree) (path : Text) : Prop :=
  ∃ l ∈ t.start (Path.visible path) :: t.way path, t'.at? l ≠ t.at? l ∧
    (l = t.place f.path ∨ l = t.place (FileTree.temporaryName f.path) ∨
      l ∈ t.way (Path.parent f.path))

/-- **A file appears with one of the dealings**: while the verification waits, so by what the surroundings
do, or with a candidate that is written across its path. -/
def Appears (env : Surroundings σ) (files : List Candidate) (path : Text) (ds : List Dealing) (w w' : σ) :
    Prop :=
  ∃ before d after u u', ds = before ++ d :: after ∧ Dealings env w before u ∧ d.Leads env u u' ∧
    Dealings env u' after w' ∧ (env.tree u).present path = false ∧
    (env.tree u').present path = true ∧
    (d.IsWaiting ∨ ∃ g ∈ files, d = g.putIn ∧ g.Crosses (env.tree u) (env.tree u') path)

theorem crosses_of_putIn {f : Candidate} {path : Text} (h : f.putIn.Leads env w w')
    (hbefore : (env.tree w).present path = false) (hafter : (env.tree w').present path = true) :
    f.Crosses (env.tree w) (env.tree w') path := by
  apply Classical.byContradiction
  intro hcross
  have hhome : (env.tree w').home = (env.tree w).home := home_of_leads id id h
  have hsame : (env.tree w').node? path = (env.tree w).node? path := by
    refine FileTree.node?_congr hhome fun l hl => ?_
    apply Classical.byContradiction
    intro hne
    refine hcross ⟨l, hl, hne, ?_⟩
    by_cases htouch : f.putIn.Touches (env.tree w) l
    · exact htouch.elim .inl fun htmp => .inr (.inl htmp)
    · rcases kept_of_leads id id h htouch with heq | ⟨-, -, hmade⟩
      · exact absurd heq hne
      · exact .inr (.inr hmade)
  rw [FileTree.present, hsame, ← FileTree.present, hbefore] at hafter
  cases hafter

namespace Accepted

/-- All that is done from the removal of former outputs to the last look. -/
def since (a : Accepted env o files w v) : List Dealing :=
  .readLog o.tailLines a.reading :: files.map Candidate.putIn ++ (a.waits ++ a.last)

/-- The former output of a candidate has been removed, or there was none. -/
def Removes (a : Accepted env o files w v) (f : Candidate) : Prop :=
  ∀ d ∈ a.removals, d.removedPath? = some f.compiled → d.succeeds = true

theorem last_waiting (a : Accepted env o files w v) : ∀ d ∈ a.last, d.IsWaiting := by
  have hwaiting : ∀ {last : List Dealing} {u : σ}, Signal env o files a.reading.seen last u →
      ∀ d ∈ last, d.IsWaiting := by
    intro last u hsignal d hd
    cases hsignal with
    | compiled =>
      rw [List.mem_singleton.1 hd]
      trivial
    | finished =>
      rcases List.mem_cons.1 hd with rfl | hd
      · trivial
      · rw [List.mem_singleton.1 hd]
        trivial
  exact hwaiting a.signal

/-- **A former output that is removed is gone** before the log is read. -/
theorem gone (a : Accepted env o files w v) {f : Candidate} (hf : f ∈ files) (h : a.Removes f) :
    (env.tree a.cleared).present f.compiled = false := by
  have hmem : some f.compiled ∈ a.removals.map Dealing.removedPath? := by
    rw [a.removals_all]
    exact List.mem_map_of_mem (List.mem_flatMap.2 ⟨f, hf, List.mem_cons_self⟩)
  have hremovals : ∀ d ∈ a.removals, d.removedPath?.isSome := by
    intro d hd
    have hpath : d.removedPath? ∈ (outputs files).map some := a.removals_all ▸ List.mem_map_of_mem hd
    obtain ⟨p, -, hp⟩ := List.mem_map.1 hpath
    rw [← hp, Option.isSome_some]
  obtain ⟨d, hd, hpath⟩ := List.mem_map.1 hmem
  have hsucceeds := h d hd hpath
  cases d with
  | removed path result =>
    cases hpath
    cases result with
    | error e => cases hsucceeds
    | ok u => exact not_present_of_removal a.removals_lead hremovals hd
  | _ => cases hpath

/-- **If it is there at the last look, it has appeared since.** -/
theorem appears (a : Accepted env o files w v) {f : Candidate} (hf : f ∈ files) (h : a.Removes f)
    (hthere : (env.tree v).present f.compiled = true) :
    Appears env files f.compiled a.since a.cleared v := by
  have hgone : ¬ (env.tree a.cleared).present f.compiled = true := by
    rw [a.gone hf h]
    nofun
  obtain ⟨before, d, after, u, u', hsplit, hbefore, hd, hafter, hu, hu'⟩ :=
    a.since_lead.turning_point (P := fun u => (env.tree u).present f.compiled = true) hgone hthere
  rw [Bool.not_eq_true] at hu
  refine ⟨before, d, after, u, u', hsplit, hbefore, hd, hafter, hu, hu', ?_⟩
  have hmem : d ∈ a.since := by
    rw [since, hsplit]
    exact List.mem_append_right _ List.mem_cons_self
  simp only [since, List.cons_append, List.mem_cons, List.mem_append, List.mem_map] at hmem
  rcases hmem with rfl | ⟨g, hg, rfl⟩ | hwait | hlast
  · exact .inl trivial
  · exact .inr ⟨g, hg, rfl, crosses_of_putIn hd hu hu'⟩
  · exact .inl (a.waits_waiting d hwait)
  · exact .inl (a.last_waiting d hlast)

end Accepted

/-! ## The whole verification -/

/-- **A success is evidenced** by the attempt in which the candidates were accepted: nothing but writing
back and cleaning up comes after it, the candidates have not been changed since they were submitted, and
a former output that was removed and is there again has appeared since. -/
structure Evidenced (env : Surroundings σ) (o : VerifyOptions) (targets : List Text) (w : σ) (r : Run σ)
    (v : σ) (a : Accepted env o r.files w v) : Prop where
  /-- There is one candidate for each target. -/
  candidates : r.files.map (fun f => (f.target, f.path, f.compiled)) =
    targets.map fun target => (target, candidatePath o target, compiledPath o target)
  /-- After the last look the changed candidates are written back as they were submitted, and all is
  cleaned up. -/
  rest : ∃ removals waits reversion,
    Dealings env v ((r.files.filter Candidate.changed).map Candidate.putBack ++ removals ++ waits ++
      [.reverted o.watchDirectory reversion]) r.world ∧
    removals.map Dealing.removedPath? = (leftovers r.files).map some ∧ ∀ d ∈ waits, d.IsWaiting
  gone : ∀ f ∈ r.files, a.Removes f → (env.tree a.cleared).present f.compiled = false
  appeared : ∀ f ∈ r.files, a.Removes f → (env.tree v).present f.compiled = true →
    Appears env r.files f.compiled a.since a.cleared v

/-- **Every success of a verification is evidenced.** -/
theorem success_is_evidenced (env : Surroundings σ) (o : VerifyOptions) (targets baseline : List Text)
    (w : σ) (succeeded : (verify env o targets baseline w).result.outcome = .succeeded) :
    ∃ v a, Evidenced env o targets w (verify env o targets baseline w) v a := by
  cases hstage : stage o (env.tree w) targets with
  | error e =>
    rw [(verify_unstaged env baseline hstage).2] at succeeded
    cases succeeded
  | ok files =>
    obtain ⟨tried, htried⟩ : ∃ tried, bothTiers env o { world := w, baseline, files } = tried := ⟨_, rfl⟩
    have hpursue : pursue env o { world := w, baseline, files } = conclude env tried.1 tried.2 := by
      rw [← htried]
      rfl
    obtain ⟨outcome, message, back, hverdict, hback, hconcluded, hconclude⟩ :=
      conclude_spec env tried.1 tried.2
    obtain ⟨removals, waits, reversion, gone, handed, hcleaned⟩ :=
      cleanUp_spec env o (conclude env tried.1 tried.2)
    have hresult := verify_result env baseline hstage
    rw [hpursue, hconclude] at hresult
    have houtcome : outcome = .succeeded := by
      rw [hresult] at succeeded
      exact succeeded
    -- only an attempt that ended with success can give this outcome
    have hended : tried.1 = .ok .success := hverdict.ended_eq_success houtcome
    have hfiles : (verify env o targets baseline w).files = tried.2.files := by
      have hcleanedFiles := hcleaned.files
      rw [verify, hstage]
      dsimp only [Run.note]
      rw [hpursue, hcleanedFiles, hconcluded]
    have hworld : (verify env o targets baseline w).world =
        (cleanUp env o (conclude env tried.1 tried.2)).world := by
      rw [(verify_staged env baseline hstage).1, hpursue]
    obtain ⟨⟨fixes, hrepaired, -⟩, -⟩ := htried ▸ bothTiers_progress env o { world := w, baseline, files }
    have hprod : bothTiers env o { world := w, baseline, files } = (.ok .success, tried.2) := by
      rw [htried, ← hended]
    obtain ⟨accepted⟩ := bothTiers_accepted hprod
    rw [← hfiles] at accepted
    refine ⟨tried.2.world, accepted, ?_, ?_, fun f hf => accepted.gone hf,
      fun f hf => accepted.appears hf⟩
    · rw [hfiles, ← (stage_spec hstage).1, List.map_map]
      refine (map_eq_of_identity (fun i => (i.1, i.2.1, i.2.2.1)) hrepaired.identity).trans ?_
      refine List.map_congr_left fun f hf => ?_
      obtain ⟨-, hpath, hcompiled⟩ := fits_of_stage hstage f hf
      exact congrArg (f.target, ·) (Prod.ext hpath hcompiled)
    · refine ⟨removals, waits, reversion, ?_, ?_, hcleaned.waits_waiting⟩
      · rw [hworld, hfiles, ← hverdict.eq_putBack houtcome]
        exact ((hback.append hcleaned.removals_lead).append hcleaned.waits_lead).append
          (.single hcleaned.revert_leads)
      · rw [hfiles, hcleaned.removals_all, hconcluded]

/-- A compiler that makes the output as soon as it can is evidence enough. -/
theorem evidence_of_prompt_compiler :
    let t : FileTree := { entries := [(["a.scss".toList], .file "b{}".toList false)] }
    let o : VerifyOptions := { watchDirectory := "w".toList, candidatePrefix := "sb-".toList }
    let env := Surroundings.sleeping fun t => t.put ["w".toList, "sb-a.css".toList] (.file [] false)
    ∃ v a, Evidenced env o ["a.scss".toList] (t, 0) (verify env o ["a.scss".toList] [] (t, 0)) v a := by
  intro t o env
  have succeeded : (verify env o ["a.scss".toList] [] (t, 0)).result.outcome = .succeeded := by
    decide +kernel
  exact success_is_evidenced env o ["a.scss".toList] [] (t, 0) succeeded

/-- **Where a file can be written it could be removed**, if nothing but another removal has happened in
between: only a directory could not. -/
theorem succeeds_of_written {meanwhile : FileTree → FileTree} {path other content : Text} {l : Location}
    {u u' w w' : FileTree × Nat} {d' : Dealing} {count : Nat} {reading : LogReading}
    (hl : ∀ t : FileTree, t.locate path = .ok l) (hfile : Path.mustBeDirectory path = false)
    (hother : ∀ t : FileTree, t.place other ≠ l)
    (hpath : d.removedPath? = some path) (hfirst : d.Leads (.sleeping meanwhile) w u)
    (hpath' : d'.removedPath? = some other) (hsecond : d'.Leads (.sleeping meanwhile) u u')
    (hsince : Dealings (.sleeping meanwhile) u'
      (.readLog count reading :: .wrote path content (.ok ()) :: ds) w') : d.succeeds = true := by
  cases d with
  | removed p result =>
    cases hpath
    cases result with
    | ok => rfl
    | error e =>
      have hremove : (Surroundings.sleeping meanwhile).remove path w = (.error e, u) := hfirst
      have hdirectory : w.1.at? l = some .directory := by
        rw [Surroundings.remove] at hremove
        split at hremove
        · cases hremove
        · next he =>
          cases hremove
          exact FileTree.directory_of_remove_error (hl _) hfile he
      have hstays : u.1 = w.1 := by
        rcases remove_leads hremove with ⟨hok, -⟩ | ⟨-, -, hsame⟩
        · cases hok
        · exact hsame
      -- the other removal is at another place
      have hstill : u'.1.at? l = some .directory := by
        cases d' with
        | removed q result =>
          cases hpath'
          have hkept := kept_of_leads id id hsecond (m := l) fun ht => hother _ ht.symm
          rcases hkept with heq | ⟨-, -, hmade⟩
          · rw [← hstays] at hdirectory
            exact heq.trans hdirectory
          · cases hmade
        | _ => cases hpath'
      cases hsince with
      | cons hread hwrites =>
        cases hread
        cases hwrites with
        | cons hwrite _ =>
          have hfree := (at?_of_wrote hwrite).1
          rw [← FileTree.locate_eq_place (hl _)] at hfree
          exact absurd hstill hfree
  | _ => cases hpath

/-- A tree with one sheet, which is plain CSS. -/
def plainTree : FileTree := { entries := [(["a.css".toList], .file "a { b: c; }".toList false)] }

/-- A verification in the directory of the sheet. -/
def plainOptions : VerifyOptions :=
  { watchDirectory := "/".toList, candidatePrefix := "sb-".toList, cleanupWait := 0 }

/-- The candidate of the sheet stands where its compiled file is expected. -/
def plainCandidate : Candidate :=
  { target := "a.css".toList, path := "/sb-a.css".toList, compiled := "/sb-a.css".toList,
    former := "a { b: c; }".toList, lines := ["a { b: c; }".toList] }

theorem locate_plainCandidate (t : FileTree) : t.locate plainCandidate.path = .ok ["sb-a.css".toList] := by
  have hvisible : Path.visible plainCandidate.path = "/sb-a.css".toList := by decide
  have hcomponents : Path.components "/sb-a.css".toList = ["sb-a.css".toList] := by decide
  have hstart : t.start "/sb-a.css".toList = [] := rfl
  simp only [FileTree.locate, hvisible, hcomponents, hstart, FileTree.walk, FileTree.at?_root]
  rfl

theorem place_plainMap_ne (t : FileTree) : t.place "/sb-a.css.map".toList ≠ ["sb-a.css".toList] := by
  have hvisible : Path.visible "/sb-a.css.map".toList = "/sb-a.css.map".toList := by decide
  have hstart : t.start "/sb-a.css.map".toList = [] := rfl
  rw [FileTree.place, hvisible, hstart]
  decide

/-- The candidate is written where it has been removed, so removing it has succeeded. -/
theorem removes_plainCandidate {w v : FileTree × Nat}
    (a : Accepted (Surroundings.sleeping id) plainOptions [plainCandidate] w v) : a.Removes plainCandidate := by
  intro d hd hpath
  have hpaths : a.removals.map Dealing.removedPath? =
      [some "/sb-a.css".toList, some "/sb-a.css.map".toList] := a.removals_all
  have hlead := a.removals_lead
  have hsince := a.since_lead
  generalize a.removals = removals at hd hpaths hlead
  generalize a.cleared = cleared at hlead hsince
  obtain _ | ⟨d₁, _ | ⟨d₂, _ | ⟨d₃, others⟩⟩⟩ := removals
  · cases hpaths
  · cases (List.cons.inj hpaths).2
  · simp only [List.map_cons, List.map_nil, List.cons.injEq, and_true] at hpaths
    obtain rfl : d = d₁ := by
      rcases List.mem_cons.1 hd with rfl | hd
      · rfl
      · rw [List.mem_singleton.1 hd, hpaths.2] at hpath
        exact absurd hpath (by decide)
    cases hlead with
    | cons hfirst hothers =>
      cases hothers with
      | cons hsecond hnone =>
        cases hnone
        exact succeeds_of_written locate_plainCandidate (by decide) place_plainMap_ne hpath hfirst hpaths.2
          hsecond hsince
  · cases (List.cons.inj (List.cons.inj hpaths).2).2

/-- **A sheet that is plain CSS already is evidence of itself**: its candidate stands where its compiled
file is expected, so the verification succeeds although no compiler is there to make anything. -/
theorem plain_sheet_passes_unseen : ¬ ∀ (env : Surroundings (FileTree × Nat)) (o : VerifyOptions)
    (targets baseline : List Text) (w : FileTree × Nat),
    (verify env o targets baseline w).result.outcome = .succeeded →
      ∃ v, ∃ a : Accepted env o (verify env o targets baseline w).files w v,
        ((∀ f ∈ (verify env o targets baseline w).files, a.Removes f) →
          ∀ f ∈ (verify env o targets baseline w).files, ∃ d ∈ a.waits ++ a.last, ∃ u u',
            d.Leads env u u' ∧ (env.tree u).present f.compiled = false ∧
              (env.tree u').present f.compiled = true) ∨
        ∃ ls, a.last = [.slept o.interval, .readLog o.tailLines (.lines ls)] ∧
          mentions (newLines o.tailLines a.reading.seen ls) o.finishedMarkers = true := by
  intro h
  obtain ⟨r, hr⟩ : ∃ r, verify (Surroundings.sleeping id) plainOptions ["a.css".toList] [] (plainTree, 0) = r :=
    ⟨_, rfl⟩
  have hsucceeded : r.result.outcome = .succeeded := by
    rw [← hr]
    decide +kernel
  have hfiles : r.files = [plainCandidate] := by
    rw [← hr]
    decide +kernel
  obtain ⟨v, a, hclaim⟩ :=
    hr ▸ h (Surroundings.sleeping id) plainOptions ["a.css".toList] [] (plainTree, 0) (hr ▸ hsucceeded)
  generalize r.files = files at a hclaim hfiles
  subst hfiles
  have hf : plainCandidate ∈ [plainCandidate] := List.mem_singleton_self plainCandidate
  rcases hclaim with hmade | ⟨ls, hlast, hmarked⟩
  · have hremoves : ∀ f ∈ [plainCandidate], a.Removes f := by
      intro f hf
      rw [List.mem_singleton.1 hf]
      exact removes_plainCandidate a
    obtain ⟨d, hd, u, u', hlead, hu, hu'⟩ := hmade hremoves plainCandidate hf
    -- nothing changes during a wait
    have hwait : d.IsWaiting := (List.mem_append.1 hd).elim (a.waits_waiting d) (a.last_waiting d)
    have hsame : (Surroundings.sleeping id).tree u' = (Surroundings.sleeping id).tree u := by
      rcases leads_sleeping hlead with rfl | rfl | ⟨hnot, -, -⟩
      · rfl
      · rfl
      · exact absurd hwait hnot
    rw [hsame, hu] at hu'
    cases hu'
  · -- and the log stays empty
    have hmem : Dealing.readLog plainOptions.tailLines (.lines ls) ∈ a.since := by
      rw [Accepted.since, hlast]
      simp
    obtain ⟨u, u', hread⟩ := a.since_lead.leads_of_mem hmem
    have hempty : ls = [] := by
      cases hread
      rfl
    have hsilent : newLines plainOptions.tailLines a.reading.seen [] = [] := by simp [newLines]
    rw [hempty, hsilent] at hmarked
    cases hmarked

end Flatsheet.Repair
