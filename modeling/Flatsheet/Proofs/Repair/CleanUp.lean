import Flatsheet.Proofs.Repair.Verification

/-!
# `Proofs.Repair.CleanUp` — whatever happens, the watched directory is cleaned up

Once the targets have been read, every verification ends in the same way, however its attempts have ended:
all leftovers are removed, and then the watched directory is put back, once and as the very last thing
(`CleansUp`). Until then it touches nothing but its own files (`Owns`) and makes only
the directories that these need (`OnTheWay`).
-/

namespace Flatsheet.Repair

open Text

variable {σ : Type} {env : Surroundings σ} {o : VerifyOptions} {targets : List Text}
  {files : List Candidate} {d : Dealing} {u u' w world : σ} {result : Verification}

/-! ## The files of a verification -/

/-- What is removed at the end. -/
def remains (o : VerifyOptions) (targets : List Text) : List Text :=
  targets.flatMap fun target =>
    [candidatePath o target, compiledPath o target, mapPath (compiledPath o target)]

/-- **The locations that a verification may touch**: those of candidates and of their temporary files, those
of the outputs and, if the last attempt has succeeded, those of targets and of their temporary files. -/
def Owns (o : VerifyOptions) (targets : List Text) (result : Verification) (t : FileTree)
    (l : Location) : Prop :=
  ∃ target ∈ targets,
    (l = t.place (candidatePath o target) ∨
      l = t.place (FileTree.temporaryName (candidatePath o target)) ∨
      l = t.place (compiledPath o target) ∨ l = t.place (mapPath (compiledPath o target))) ∨
    result.accepted ∧ (l = t.place target ∨ l = t.place (FileTree.temporaryName target))

/-- **The directories that a verification may make**: those on the way to a candidate and, if the last
attempt has succeeded, to a target. -/
def OnTheWay (o : VerifyOptions) (targets : List Text) (result : Verification) (t : FileTree)
    (l : Location) : Prop :=
  ∃ target ∈ targets, l ∈ t.way (Path.parent (candidatePath o target)) ∨
    result.accepted ∧ l ∈ t.way (Path.parent target)

/-- A dealing leaves everything alone but the files of the verification and directories on the way. -/
def Framed (env : Surroundings σ) (o : VerifyOptions) (targets : List Text) (result : Verification)
    (d : Dealing) : Prop :=
  ∀ u u', d.Leads env u u' → ∀ l, ¬ Owns o targets result (env.tree u) l →
    (env.tree u').at? l = (env.tree u).at? l ∨
      (env.tree u).at? l = none ∧ (env.tree u').at? l = some .directory ∧
        OnTheWay o targets result (env.tree u) l

theorem leftovers_of_stage {t : FileTree} (h : stage o t targets = .ok files) :
    leftovers files = remains o targets := by
  have hpaths : (files.map fun f => [f.path, f.compiled, mapPath f.compiled]) =
      files.map fun f => [candidatePath o f.target, compiledPath o f.target,
        mapPath (compiledPath o f.target)] := by
    refine List.map_congr_left fun f hf => ?_
    obtain ⟨-, hpath, hcompiled⟩ := fits_of_stage h f hf
    rw [hpath, hcompiled]
  rw [remains, ← (stage_spec h).1, List.flatMap_map]
  exact congrArg List.flatten hpaths

theorem paths_of_stage {t : FileTree} (h : stage o t targets = .ok files) :
    files.map (·.path) = targets.map (candidatePath o) := by
  rw [← (stage_spec h).1, List.map_map]
  exact List.map_congr_left fun f hf => (fits_of_stage h f hf).2.1

/-- A write to a path touches its place and that of its temporary file, and makes directories on the
way. -/
theorem kept_of_wrote {path content : Text} {written : Except FileTree.WriteError Unit}
    (h : (Dealing.wrote path content written).Leads env u u') {l : Location}
    (hl : l ≠ (env.tree u).place path)
    (htmp : l ≠ (env.tree u).place (FileTree.temporaryName path)) :
    (env.tree u').at? l = (env.tree u).at? l ∨
      (env.tree u).at? l = none ∧ (env.tree u').at? l = some .directory ∧
        l ∈ (env.tree u).way (Path.parent path) := by
  refine kept_of_leads id id h ?_
  cases written with
  | ok => exact fun ht => ht.elim hl htmp
  | error => exact htmp

/-- **Writing candidates is framed, so is removing what remains, and after a success so is writing
targets.** -/
theorem framed_of_kinds (h : d.IsWriteTo (targets.map (candidatePath o)) ∨
      d.IsRemovalOf (remains o targets) ∨ result.accepted ∧ d.IsWriteTo targets) :
    Framed env o targets result d := by
  intro u u' hlead l hl
  -- a write changes its place, the temporary one and the way to them, a removal its place only
  rcases h with hwrite | hremoval | ⟨haccepted, hwrite⟩
  · cases d with
    | wrote path content written =>
      obtain ⟨target, ht, rfl⟩ := List.mem_map.1 (show path ∈ targets.map (candidatePath o) from hwrite)
      exact (kept_of_wrote hlead (fun he => hl ⟨target, ht, .inl (.inl he)⟩)
        (fun he => hl ⟨target, ht, .inl (.inr (.inl he))⟩)).imp id
        fun ⟨hnone, hdir, hway⟩ => ⟨hnone, hdir, target, ht, .inl hway⟩
    | _ => exact absurd hwrite id
  · cases d with
    | removed path removal =>
      obtain ⟨target, ht, hp⟩ := List.mem_flatMap.1 (show path ∈ remains o targets from hremoval)
      refine (kept_of_leads id id hlead fun he => hl ⟨target, ht, .inl ?_⟩).imp id
        fun ⟨_, _, hmade⟩ => absurd hmade (by simp [Dealing.makes])
      simp only [List.mem_cons, List.not_mem_nil, or_false] at hp
      rcases hp with hp | hp | hp
      · exact .inl (hp ▸ he)
      · exact .inr (.inr (.inl (hp ▸ he)))
      · exact .inr (.inr (.inr (hp ▸ he)))
    | _ => exact absurd hremoval id
  · cases d with
    | wrote path content written =>
      have ht : path ∈ targets := hwrite
      exact (kept_of_wrote hlead (fun he => hl ⟨path, ht, .inr ⟨haccepted, .inl he⟩⟩)
        (fun he => hl ⟨path, ht, .inr ⟨haccepted, .inr he⟩⟩)).imp id
        fun ⟨hnone, hdir, hway⟩ => ⟨hnone, hdir, path, ht, .inr ⟨haccepted, hway⟩⟩
    | _ => exact absurd hwrite id

/-! ## The end of every verification -/

/-- **A verification cleans up**: what it has done `before`, then the `removals`, then waiting, and then the
reversion of the watched directory, which is the end. -/
structure CleansUp (env : Surroundings σ) (o : VerifyOptions) (targets : List Text) (w : σ)
    (pursued : Verification) (world : σ) (result : Verification) (before removals waits : List Dealing)
    (reversion : Reversion) (concluded gone handed : σ) : Prop where
  before_lead : Dealings env w before concluded
  removals_lead : Dealings env concluded removals gone
  waits_lead : Dealings env gone waits handed
  revert_leads : (Dealing.reverted o.watchDirectory reversion).Leads env handed world
  /-- Nothing is put back earlier. -/
  reverted_once : ∀ d ∈ before ++ removals ++ waits, ¬ d.IsReversion
  /-- Everything that remains is removed, in order. -/
  removals_all : removals.map Dealing.removedPath? = (remains o targets).map some
  waits_waiting : ∀ d ∈ waits, d.IsWaiting
  /-- Cleaning up is complete if no removal fails, and only then. -/
  complete : result.cleanupComplete = true ↔ ∀ d ∈ removals, d.succeeds = true
  /-- And then nothing remains once all has been removed. -/
  nothing_remains : result.cleanupComplete = true →
    ∀ p ∈ remains o targets, (env.tree gone).present p = false
  /-- The result is that of the attempts and their verdict, but for what it says about cleaning up. -/
  result_eq : result = { pursued with
    trace := ⟨pursued.trace.stages ++ [.cleaningUp]⟩
    cleanupComplete := result.cleanupComplete
    reverted := result.reverted }
  /-- The state of cleaning up is entered once. -/
  once : .cleaningUp ∉ pursued.trace.stages
  /-- Of its own accord the verification touches nothing but its own files. -/
  framed : ∀ d ∈ before ++ removals, ¬ d.IsWaiting → Framed env o targets result d

/-- What a verification does of its own accord in its course is framed. -/
theorem Course.framed (c : Course env o w files world result)
    (h : stage o (env.tree w) targets = .ok files) :
    ∀ d ∈ c.history, ¬ d.IsWaiting → Framed env o targets result d := by
  intro d hd hwait
  have hkinds := c.history_kinds d hd
  rw [paths_of_stage h, leftovers_of_stage h, (stage_spec h).1] at hkinds
  exact framed_of_kinds (hkinds.resolve_left hwait)

/-- **Every verification cleans up**, however it ends. If a target cannot be read there is nothing to clean
up: the world is as it was, so nothing has been written or removed, and neither the log has been read nor
anything been put back. -/
theorem verify_cleans_up (env : Surroundings σ) (o : VerifyOptions) (targets baseline : List Text)
    (w : σ) :
    match stage o (env.tree w) targets with
    | .error _ => (verify env o targets baseline w).world = w
    | .ok files => ∃ before removals waits reversion concluded gone handed,
        CleansUp env o targets w (pursue env o { world := w, baseline, files }).result
          (verify env o targets baseline w).world (verify env o targets baseline w).result
          before removals waits reversion concluded gone handed := by
  cases h : stage o (env.tree w) targets with
  | error e => exact (verify_unstaged env baseline h).1
  | ok files =>
    obtain ⟨c⟩ := verify_course env baseline h
    have hall : c.removals.map Dealing.removedPath? = (remains o targets).map some :=
      leftovers_of_stage h ▸ c.removals_all
    have hresult := verify_result env baseline h
    refine ⟨c.tries ++ c.back, c.removals, c.waits, c.reversion, c.concluded, c.gone, c.handed, {
      before_lead := c.tries_lead.append c.back_lead
      removals_lead := c.removals_lead
      waits_lead := c.waits_lead
      revert_leads := c.revert_leads
      reverted_once := fun d hd => c.history_not_reversion d ?_
      removals_all := hall
      waits_waiting := c.waits_waiting
      complete := ?_
      nothing_remains := fun hc => not_present_of_removals c.removals_lead hall (c.complete ▸ hc)
      result_eq := hresult
      once := ?_
      framed := fun d hd => c.framed h d ?_ }⟩
    · simpa only [Course.history, List.append_assoc] using hd
    · rw [c.complete, List.all_eq_true]
    · -- no stage before the cleanup is one, nor is that of the outcome
      obtain ⟨states, hstates, hclean⟩ := c.stages
      rw [hresult, ← List.singleton_append, ← List.append_assoc] at hstates
      rw [List.append_cancel_right hstates, List.mem_append, List.mem_singleton]
      exact fun hm => hm.elim hclean (VerifyOutcome.state_ne_cleaningUp _ ·.symm)
    · simp only [List.mem_append, Course.history] at hd ⊢
      exact hd.elim (·.imp id .inl) fun hd => .inr (.inr (.inl hd))

/-- **Without the directories of targets the frame would be too narrow**: if the directory of a target has
gone while the compiler was at work, writing the target makes it again. -/
theorem remakes_directory_of_target : ¬ ∀ (env : Surroundings (FileTree × Nat)) (o : VerifyOptions)
    (targets baseline : List Text) (w : FileTree × Nat), ∃ ds,
    Dealings env w ds (verify env o targets baseline w).world ∧
      ∀ d ∈ ds, ¬ d.IsWaiting → ¬ d.IsReversion → ∀ u u', d.Leads env u u' → ∀ l,
        ¬ Owns o targets (verify env o targets baseline w).result (env.tree u) l →
          (env.tree u').at? l = (env.tree u).at? l ∨
            (env.tree u).at? l = none ∧ (env.tree u').at? l = some .directory ∧
              ∃ target ∈ targets, l ∈ (env.tree u).way (Path.parent (candidatePath o target)) := by
  intro h
  let theme : Location := ["theme".toList]
  let file : Location := ["theme".toList, "a.scss".toList]
  let t : FileTree := { entries := [(theme, .directory), (file, .file "$a: b;".toList false)] }
  let o : VerifyOptions := { watchDirectory := "w".toList, candidatePrefix := "sb-".toList,
                             maxRetries := 0, cleanupWait := 0 }
  let env := Surroundings.sleeping fun t =>
    ((t.erase file).erase theme).put ["w".toList, "sb-a.css".toList] (.file [] false)
  obtain ⟨ds, hlead, hframed⟩ := h env o ["theme/a.scss".toList] [] (t, 0)
  -- once there has been a sleep the directory is gone, and no framed dealing brings it back
  let Gone (u : FileTree × Nat) : Prop := u.1.home = [] ∧ (u.2 ≠ 0 → u.1.at? theme = none)
  have hgone : Gone (verify env o ["theme/a.scss".toList] [] (t, 0)).world := by
    refine hlead.keeps (P := Gone) (fun d hd u u' hd' hu => ?_) ⟨rfl, fun hne => absurd rfl hne⟩
    rcases leads_sleeping hd' with rfl | rfl | ⟨hwait, hrev, hcount⟩
    · exact hu
    · refine ⟨hu.1, fun _ => ?_⟩
      change FileTree.at? (((u.1.erase file).erase theme).put _ _) theme = none
      rw [FileTree.at?_put _ _ _ (by simp), if_neg (by decide), FileTree.at?_erase _ _ (by simp [theme]),
        if_pos rfl]
    have hhome : (env.tree u).home = t.home := hu.1
    have hplace : ∀ p, theme = (env.tree u).place p → theme = t.place p := fun p hp =>
      hp.trans (FileTree.place_congr hhome p)
    have howns : ¬ Owns o ["theme/a.scss".toList]
        (verify env o ["theme/a.scss".toList] [] (t, 0)).result (env.tree u) theme := by
      rintro ⟨target, ht, hl⟩
      obtain rfl := List.mem_singleton.1 ht
      rcases hl with (hl | hl | hl | hl) | ⟨-, hl | hl⟩ <;> exact absurd (hplace _ hl) (by decide)
    refine ⟨(home_of_leads hwait hrev hd').trans hu.1, fun hne => ?_⟩
    rcases hframed d hd hwait hrev u u' hd' theme howns with hsame | ⟨-, -, target, ht, hway⟩
    · exact hsame.trans (hu.2 (hcount ▸ hne))
    · obtain rfl := List.mem_singleton.1 ht
      rw [FileTree.way_congr hhome] at hway
      exact absurd hway (by decide)
  exact absurd (hgone.2 (by decide)) (by decide)

end Flatsheet.Repair
