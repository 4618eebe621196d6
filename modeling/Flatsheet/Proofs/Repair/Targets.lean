import Mathlib.Data.List.Nodup
import Flatsheet.Proofs.Repair.Verification

/-!
# `Proofs.Repair.Targets` — what becomes of the targets

A verification works on copies. Its targets are written at the very end, and only if the copies have
compiled:

* while attempts are made no target is touched (`Prepared.spared_by_routine`);
* writing back gives each changed target its text and leaves the others alone (`Prepared.put_back`);
* cleaning up touches no target (`Prepared.spared_by_removal`).

So what becomes of the targets follows from the last attempt and from the outcome (`Settled`,
`Course.settled`). Targets are told apart by their names: in different places they are different files, and
in one place their names would be the same (`Prepared.place_ne`).
-/

namespace Flatsheet.Repair

open Text

variable {σ : Type} {env : Surroundings σ} {o : VerifyOptions} {t : FileTree}
  {files files' : List Candidate} {f g : Candidate} {d : Dealing} {ds : List Dealing} {u v : σ}

/-! ## The situation -/

/-- The files beside a target that a verification deals with: its candidate, the outputs, and what is
written for a moment before a file takes its name. -/
def sideFiles (o : VerifyOptions) (target : Text) : List Text :=
  [candidatePath o target, FileTree.temporaryName (candidatePath o target), compiledPath o target,
    mapPath (compiledPath o target), FileTree.temporaryName target]

/-- **The targets are apart** from all the files beside them. -/
def Apart (o : VerifyOptions) (t : FileTree) (targets : List Text) : Prop :=
  ∀ a ∈ targets, ∀ b ∈ targets, ∀ p ∈ sideFiles o b, t.place a ≠ t.place p

/-- **Candidates of targets with different names**, which are apart from all the files beside them. -/
structure Prepared (o : VerifyOptions) (t : FileTree) (files : List Candidate) : Prop where
  fits : ∀ f ∈ files, f.Fits o t
  names : (files.map Candidate.name).Nodup
  apart : Apart o t (files.map (·.target))

namespace Prepared

/-- The situation stays while the candidates are repaired. -/
theorem congr (h : Prepared o t files)
    (hids : files'.map Candidate.identity = files.map Candidate.identity) : Prepared o t files' := by
  have htargets : files'.map (·.target) = files.map (·.target) := map_eq_of_identity (·.1) hids
  have hnames : files'.map Candidate.name = files.map Candidate.name :=
    map_eq_of_identity (fun i => Path.fileName i.1) hids
  refine ⟨fun f' hf' => ?_, ?_, ?_⟩
  · have hmem : f'.identity ∈ files.map Candidate.identity := hids ▸ List.mem_map_of_mem hf'
    obtain ⟨f, hf, hid⟩ := List.mem_map.1 hmem
    obtain ⟨htarget, hpath, hcompiled, hformer⟩ : f.target = f'.target ∧ f.path = f'.path ∧
        f.compiled = f'.compiled ∧ f.former = f'.former := by
      simpa only [Candidate.identity, Prod.mk.injEq] using hid
    have hfits := h.fits f hf
    rwa [Candidate.Fits, htarget, hpath, hcompiled, hformer] at hfits
  · exact hnames ▸ h.names
  · exact htargets ▸ h.apart

theorem nodup (h : Prepared o t files) : files.Nodup :=
  List.Pairwise.of_map Candidate.name (fun _ _ hne he => hne (he ▸ rfl)) h.names

/-- A target is something that is there. -/
theorem there (h : Prepared o t files) (hf : f ∈ files) : t.at? (t.place f.target) ≠ none := by
  intro hnone
  have hcontent := FileTree.contentAt?_of_read (h.fits f hf).1
  rw [FileTree.contentAt?, hnone] at hcontent
  cases hcontent

theorem ne_side (h : Prepared o t files) (hf : f ∈ files) (hg : g ∈ files) {p : Text}
    (hp : p ∈ sideFiles o g.target) : t.place f.target ≠ t.place p :=
  h.apart _ (List.mem_map_of_mem hf) _ (List.mem_map_of_mem hg) p hp

/-- A dealing that removes something beside the targets does not touch them. -/
theorem spared_by_removed (h : Prepared o t files) (hf : f ∈ files) (hg : g ∈ files)
    {path : Text} {result : Except FileError Unit}
    (hpath : path ∈ [g.path, g.compiled, mapPath g.compiled]) :
    ¬ (Dealing.removed path result).IsReversion ∧
      ¬ (Dealing.removed path result).Touches t (t.place f.target) := by
  obtain ⟨-, hcandidate, hcompiled⟩ := h.fits g hg
  refine ⟨id, h.ne_side hf hg ?_⟩
  simp only [hcandidate, hcompiled, List.mem_cons, List.not_mem_nil, or_false] at hpath
  simp only [sideFiles, List.mem_cons, List.not_mem_nil, or_false]
  exact hpath.imp id fun hp => .inr (hp.imp id .inl)

theorem spared_by_waiting (hd : d.IsWaiting) (l : Location) : ¬ d.IsReversion ∧ ¬ d.Touches t l := by
  cases d with
  | readLog | slept | asked => exact ⟨id, id⟩
  | wrote | removed | reverted => exact absurd hd id

/-- **No routine dealing touches a target.** -/
theorem spared_by_routine (h : Prepared o t files) (hf : f ∈ files) (hd : d.IsRoutine files) :
    ¬ d.IsReversion ∧ ¬ d.Touches t (t.place f.target) := by
  rcases hd with hwait | hwrite | hremoval
  · exact spared_by_waiting hwait _
  · cases d with
    | wrote path content result =>
      obtain ⟨g, hg, rfl⟩ := List.mem_map.1 (show path ∈ files.map (·.path) from hwrite)
      obtain ⟨-, hcandidate, -⟩ := h.fits g hg
      have hplace : t.place f.target ≠ t.place g.path := by
        rw [hcandidate]
        exact h.ne_side hf hg (by simp [sideFiles])
      have htemporary : t.place f.target ≠ t.place (FileTree.temporaryName g.path) := by
        rw [hcandidate]
        exact h.ne_side hf hg (by simp [sideFiles])
      refine ⟨id, ?_⟩
      cases result with
      | ok => exact fun ht => ht.elim hplace htemporary
      | error => exact htemporary
    | removed | readLog | slept | asked | reverted => exact absurd hwrite id
  · cases d with
    | removed path result =>
      obtain ⟨g, hg, hp⟩ := List.mem_flatMap.1 (show path ∈ outputs files from hremoval)
      exact h.spared_by_removed hf hg (List.mem_cons_of_mem _ hp)
    | wrote | readLog | slept | asked | reverted => exact absurd hremoval id

/-- **No removal of leftovers touches a target.** -/
theorem spared_by_removal (h : Prepared o t files) (hf : f ∈ files)
    (hd : d.IsRemovalOf (leftovers files)) :
    ¬ d.IsReversion ∧ ¬ d.Touches t (t.place f.target) := by
  cases d with
  | removed path result =>
    obtain ⟨g, hg, hp⟩ := List.mem_flatMap.1 (show path ∈ leftovers files from hd)
    exact h.spared_by_removed hf hg hp
  | wrote | readLog | slept | asked | reverted => exact absurd hd id

/-- **Targets in one place would have one name**, unless the place is a directory. -/
theorem place_ne (h : Prepared o t files) (hf : f ∈ files) (hg : g ∈ files) (hne : f ≠ g)
    (hdir : t.at? (t.place g.target) ≠ some .directory) :
    t.place f.target ≠ t.place g.target := by
  intro hplace
  cases hnode : t.at? (t.place g.target) with
  | none => exact h.there hg hnode
  | some node =>
    cases node with
    | directory => exact hdir hnode
    | file content x =>
      -- a file that can be read has its name as the last component of the place
      have hlast : ∀ k ∈ files, t.place k.target = t.place g.target →
          (t.place g.target).getLast? = some k.name := fun k hk hkg => by
        rw [← hkg]
        exact FileTree.getLast?_place_of_read (h.fits k hk).1 (hkg ▸ hnode)
          (h.ne_side hk hk (by simp [sideFiles]))
      have hname : f.name = g.name :=
        Option.some.inj ((hlast f hf hplace).symm.trans (hlast g hg rfl))
      exact hne (List.inj_on_of_nodup_map h.names hf hg hname)

/-! ## Writing back -/

/-- A target that has been written was not a directory: directories stay where they are until then. -/
theorem not_directory_of_putBack (h : Prepared o t files)
    (aloof : Aloof env (files.map fun f => t.place f.target)) {gs : List Candidate} (hgs : gs ⊆ files)
    (hlead : Dealings env u (gs.map Candidate.putBack) v)
    (hu : ∀ f ∈ files, t.at? (t.place f.target) = some .directory → Stands env t (t.place f.target) u)
    (hhome : (env.tree u).home = t.home) :
    ∀ g ∈ gs, t.at? (t.place g.target) ≠ some .directory := by
  induction gs generalizing u with
  | nil => simp
  | cons g gs ih =>
    obtain ⟨hg, hgs⟩ := List.cons_subset.1 hgs
    cases hlead with
    | @cons _ u' _ _ _ first others =>
      -- a directory would still have been there for the write, and that would have failed
      have hnot : t.at? (t.place g.target) ≠ some .directory := by
        intro hdir
        have hstands := hu g hg hdir
        have hfree := (at?_of_wrote first).1
        rw [FileTree.place_congr hhome, hstands.2] at hfree
        exact hfree hdir
      have hstep : ∀ f ∈ files, t.at? (t.place f.target) = some .directory →
          Stands env t (t.place f.target) u' := by
        intro f hf hdir
        have hne : t.place f.target ≠ t.place g.target := fun he => hnot (he ▸ hdir)
        have hspared : ¬ g.putBack.Touches t (t.place f.target) := fun ht =>
          ht.elim hne (h.ne_side hf hg (by simp [sideFiles]))
        exact (hu f hf hdir).step aloof (List.mem_map_of_mem hf) (h.there hf) id hspared first
      intro k hk
      rcases List.mem_cons.1 hk with rfl | hk
      · exact hnot
      · exact ih hgs others hstep ((home_of_leads id id first).trans hhome) k hk

/-- **Writing back** gives the targets that are written their texts and leaves the others alone. -/
theorem put_back (h : Prepared o t files) (aloof : Aloof env (files.map fun f => t.place f.target))
    {gs : List Candidate} (hgs : gs ⊆ files) (hnodup : gs.Nodup)
    (hlead : Dealings env u (gs.map Candidate.putBack) v)
    (hu : ∀ f ∈ files, Stands env t (t.place f.target) u) (hf : f ∈ files) :
    (f ∉ gs → Stands env t (t.place f.target) v) ∧
      (f ∈ gs → (env.tree v).home = t.home ∧
        (env.tree v).contentAt? (t.place f.target) = some f.content) := by
  have hl : t.place f.target ∈ files.map fun f => t.place f.target := List.mem_map_of_mem hf
  have hplaces := h.not_directory_of_putBack aloof hgs hlead (fun f hf _ => hu f hf) (hu f hf).1
  have hspared : ∀ ks ⊆ gs, f ∉ ks → ∀ d ∈ ks.map Candidate.putBack,
      ¬ d.IsReversion ∧ ¬ d.Touches t (t.place f.target) := by
    intro ks hks hnot d hd
    obtain ⟨k, hk, rfl⟩ := List.mem_map.1 hd
    have hkf : k ∈ files := hgs (hks hk)
    have hne : t.place f.target ≠ t.place k.target :=
      h.place_ne hf hkf (fun he => hnot (he ▸ hk)) (hplaces k (hks hk))
    exact ⟨id, fun ht => ht.elim hne (h.ne_side hf hkf (by simp [sideFiles]))⟩
  refine ⟨fun hnot => hlead.stands aloof hl (h.there hf) (hspared gs (List.Subset.refl gs) hnot)
    (hu f hf), fun hmem => ?_⟩
  -- the target stands until its own write, and what is written then stands to the end
  obtain ⟨pre, post, rfl⟩ := List.append_of_mem hmem
  have hpre : f ∉ pre := fun hp =>
    (List.disjoint_of_nodup_append hnodup) hp List.mem_cons_self
  have hpost : f ∉ post := (List.nodup_cons.1 (List.nodup_append.1 hnodup).2.1).1
  rw [List.map_append, List.map_cons] at hlead
  obtain ⟨u₁, hlead₁, hlead₂⟩ := hlead.split
  have hstands := hlead₁.stands aloof hl (h.there hf)
    (hspared pre (List.subset_append_left ..) hpre) (hu f hf)
  cases hlead₂ with
  | @cons _ u₂ _ _ _ first others =>
    obtain ⟨x, hx⟩ := (at?_of_wrote first).2
    rw [FileTree.place_congr hstands.1] at hx
    have hhome : (env.tree u₂).home = t.home := (home_of_leads id id first).trans hstands.1
    have hend : Stands env (env.tree u₂) (t.place f.target) v := by
      refine others.stands aloof hl (by rw [hx]; simp) (fun d hd => ?_) ⟨rfl, rfl⟩
      have hd' := hspared post (List.subset_append_of_subset_right _ (List.subset_cons_self ..)) hpost d hd
      exact ⟨hd'.1, mt (touches_congr hhome).1 hd'.2⟩
    refine ⟨hend.1.trans hhome, ?_⟩
    rw [FileTree.contentAt?_congr hend.2, FileTree.contentAt?, hx]

/-- A target is never the candidate of one. -/
theorem target_ne_path (h : Prepared o t files) (hf : f ∈ files) (hg : g ∈ files) :
    g.target ≠ f.path := by
  intro he
  have hside := h.ne_side hg hf (List.mem_cons_self : candidatePath o f.target ∈ sideFiles o f.target)
  rw [he, (h.fits f hf).2.1] at hside
  exact hside rfl

/-- Candidates of different targets have different paths. -/
theorem path_ne (h : Prepared o t files) (hf : f ∈ files) (hg : g ∈ files) (hne : f ≠ g) :
    f.path ≠ g.path := by
  intro he
  rw [(h.fits f hf).2.1, (h.fits g hg).2.1] at he
  have habsolute : Path.isAbsolute (o.candidatePrefix ++ Path.fileName f.target) =
      Path.isAbsolute (o.candidatePrefix ++ Path.fileName g.target) := by
    rw [Path.isAbsolute_append_fileName, Path.isAbsolute_append_fileName]
  have hname : f.name = g.name := List.append_cancel_left (Path.join_right_inj habsolute he)
  exact hne (List.inj_on_of_nodup_map h.names hf hg hname)

/-- **The text submitted last** is the content of the candidate. -/
theorem lastWritten_of_submitted (h : Prepared o t files) (hds : Submitted files ds) (hf : f ∈ files) :
    lastWritten f.path ds = some f.content := by
  obtain ⟨pre, post, rfl, hpost⟩ := hds
  obtain ⟨before, after, heq⟩ := List.append_of_mem hf
  have hafter : ∀ d ∈ after.map Candidate.putIn, d.textFor? f.path = none := by
    intro d hd
    obtain ⟨g, hg, rfl⟩ := List.mem_map.1 hd
    have hgf : g ∈ files := heq ▸ List.mem_append_right _ (List.mem_cons_of_mem _ hg)
    have hnot : f ∉ after := (List.nodup_cons.1 (List.nodup_append.1 (heq ▸ h.nodup)).2.1).1
    exact if_neg (h.path_ne hgf hf fun he => hnot (he ▸ hg))
  have hown : f.putIn.textFor? f.path = some f.content := if_pos rfl
  rw [lastWritten_append_of_none fun d hd => textFor?_of_waiting (hpost d hd) _, heq, List.map_append,
    List.map_cons, ← List.append_assoc, ← List.singleton_append, ← List.append_assoc,
    lastWritten_append_of_none hafter, lastWritten, List.filterMap_append, List.filterMap_cons, hown]
  simp

/-- What is staged is prepared. -/
theorem of_stage {targets : List Text} (h : stage o t targets = .ok files)
    (names : (targets.map Path.fileName).Nodup) (apart : Apart o t targets) : Prepared o t files := by
  have htargets : files.map (·.target) = targets := (stage_spec h).1
  have hnames := names_of_stage h
  exact ⟨fits_of_stage h, hnames ▸ names, htargets ▸ apart⟩

end Prepared

/-- A candidate that has not been changed has the content of its target. -/
theorem content_of_unchanged {repaired : List Candidate} {report : Report}
    (fresh : ∀ f ∈ files, f.dirty = false ∧ f.lines = lines f.former)
    (names : (files.map Candidate.name).Nodup) (hr : Repaired files (repaired, report))
    (hf : f ∈ repaired) (hsame : f.changed = false) : f.content = f.former := by
  have hscript := (Scripted.refl fun f hf => (fresh f hf).1).repaired names hr
  simp only [Candidate.changed, Bool.and_eq_false_iff, decide_eq_false_iff_not, ne_eq,
    not_not] at hsame
  rcases hsame with hclean | hsame
  · rw [Candidate.content, (fresh f (hscript.untouched f hf hclean)).2, unlines_lines]
  · exact hsame

namespace Prepared

/-- Once the changed ones of some files are written, each of these files holds its content, and all others
are as they were. -/
theorem put_back_changed (h : Prepared o t files)
    (aloof : Aloof env (files.map fun f => t.place f.target)) {gs : List Candidate}
    (hgs : gs.Sublist files) (hsame : ∀ f ∈ gs, f.changed = false → f.content = f.former)
    (hlead : Dealings env u ((gs.filter Candidate.changed).map Candidate.putBack) v)
    (hu : ∀ f ∈ files, Stands env t (t.place f.target) u) :
    (∀ f ∈ gs, (env.tree v).home = t.home ∧
      (env.tree v).contentAt? (t.place f.target) = some f.content) ∧
    ∀ f ∈ files, f ∉ gs → Stands env t (t.place f.target) v := by
  have hsub : (gs.filter Candidate.changed).Sublist files := List.filter_sublist.trans hgs
  have hput := fun {f : Candidate} (hf : f ∈ files) =>
    h.put_back aloof hsub.subset (hsub.nodup h.nodup) hlead hu hf
  refine ⟨fun f hf => ?_, fun f hf hnot => ?_⟩
  · cases hchanged : f.changed with
    | true => exact (hput (hgs.subset hf)).2 (List.mem_filter.2 ⟨hf, hchanged⟩)
    | false =>
      have hstands := (hput (hgs.subset hf)).1 fun hm => by simp [hchanged] at hm
      refine ⟨hstands.1, ?_⟩
      rw [FileTree.contentAt?_congr hstands.2, hsame f hf hchanged]
      exact FileTree.contentAt?_of_read (h.fits f (hgs.subset hf)).1
  · exact (hput hf).1 fun hm => hnot (List.mem_filter.1 hm).1

/-- **What a verdict does to the targets**: they are written up to the first one that cannot be. -/
theorem verdict_spec (h : Prepared o t files) (aloof : Aloof env (files.map fun f => t.place f.target))
    (hsame : ∀ f ∈ files, f.changed = false → f.content = f.former) {ended : AttemptEnd}
    {outcome : VerifyOutcome} (hverdict : Verdict files ended outcome ds) (hlead : Dealings env u ds v)
    (hu : ∀ f ∈ files, Stands env t (t.place f.target) u) :
    ∃ written kept, files = written ++ kept ∧
      (∀ f ∈ written, (env.tree v).home = t.home ∧
        (env.tree v).contentAt? (t.place f.target) = some f.content) ∧
      (∀ f ∈ kept, Stands env t (t.place f.target) v) ∧
      (ended ≠ .ok .success ∧ outcome ≠ .succeeded ∧ written = [] ∨
        ended = .ok .success ∧ outcome = .succeeded ∧ kept = [] ∨
        ended = .ok .success ∧ outcome ≠ .succeeded ∧ ∃ f after text e,
          kept = f :: after ∧ .wrote f.target text (.error e) ∈ ds) := by
  cases hverdict with
  | aborted | cancelled =>
    cases hlead
    exact ⟨[], files, rfl, by simp, hu, .inl ⟨nofun, nofun, rfl⟩⟩
  | failed hcancelled hsuccess =>
    cases hlead
    exact ⟨[], files, rfl, by simp, hu, .inl ⟨fun he => hsuccess (Except.ok.inj he), nofun, rfl⟩⟩
  | succeeded written =>
    cases written with
    | done =>
      have hput := h.put_back_changed aloof (List.Sublist.refl files) hsame hlead hu
      exact ⟨files, [], (List.append_nil _).symm, hput.1, by simp, .inr (.inl ⟨rfl, rfl, rfl⟩)⟩
  | @unwritten e _ written =>
    cases written with
    | stopped before f after _ changed =>
      obtain ⟨u₁, hlead₁, hlead₂⟩ := hlead.split
      obtain ⟨hput, hstands⟩ := h.put_back_changed aloof (List.sublist_append_left ..)
        (fun g hg => hsame g (List.mem_append_left _ hg)) hlead₁ hu
      -- the write that fails touches no target
      have hlast : ∀ g ∈ before ++ f :: after,
          ¬ (Dealing.wrote f.target f.content (.error e)).Touches t (t.place g.target) := fun g hg =>
        h.ne_side hg (List.mem_append_right _ List.mem_cons_self) (by simp [sideFiles])
      refine ⟨before, f :: after, rfl, fun g hg => ?_, fun g hg => ?_,
        .inr (.inr ⟨rfl, nofun, f, after, f.content, e, rfl, by simp⟩)⟩
      · obtain ⟨hhome, hcontent⟩ := hput g hg
        have hend : Stands env (env.tree u₁) (t.place g.target) v := by
          refine hlead₂.stands aloof (List.mem_map_of_mem (List.mem_append_left _ hg)) ?_
            (fun d hd => ?_) ⟨rfl, rfl⟩
          · intro hnone
            simp [FileTree.contentAt?, hnone] at hcontent
          · rw [List.mem_singleton.1 hd]
            exact ⟨id, mt (touches_congr hhome).1 (hlast g (List.mem_append_left _ hg))⟩
        exact ⟨hend.1.trans hhome, (FileTree.contentAt?_congr hend.2).trans hcontent⟩
      · have hgf : g ∈ before ++ f :: after := List.mem_append_right _ hg
        have hnot : g ∉ before := fun hb => List.disjoint_of_nodup_append h.nodup hb hg
        refine hlead₂.stands aloof (List.mem_map_of_mem hgf) (h.there hgf) (fun d hd => ?_)
          (hstands g hgf hnot)
        rw [List.mem_singleton.1 hd]
        exact ⟨id, hlast g hgf⟩

end Prepared

/-! ## The end -/

/-- The target holds the text that was submitted last for it. -/
def Holds (o : VerifyOptions) (t t' : FileTree) (ds : List Dealing) (target : Text) : Prop :=
  ∃ text, lastWritten (candidatePath o target) ds = some text ∧
    t'.contentAt? (t.place target) = some text

/-- The target is as it was. -/
def Untouched (t t' : FileTree) (target : Text) : Prop :=
  t'.at? (t.place target) = t.at? (t.place target)

/-- **What becomes of the targets**, in a tree at the end of a verification. -/
structure Settled (o : VerifyOptions) (t : FileTree) (targets : List Text) (ds : List Dealing)
    (result : Verification) (t' : FileTree) : Prop where
  /-- Unless the last attempt succeeds, nothing. -/
  untouched : ¬ result.accepted → ∀ target ∈ targets, Untouched t t' target
  /-- If the verification succeeds, they hold what was submitted last. -/
  succeeded : result.outcome = .succeeded → ∀ target ∈ targets, Holds o t t' ds target
  /-- If a target cannot be written, those before it are written, and it and those after it are not. -/
  unwritten : result.accepted → result.outcome ≠ .succeeded → ∃ before target after,
    targets = before ++ target :: after ∧ (∃ text e, .wrote target text (.error e) ∈ ds) ∧
      (∀ b ∈ before, Holds o t t' ds b) ∧ ∀ a ∈ target :: after, Untouched t t' a

theorem Settled.congr {targets : List Text} {result : Verification} {t' t'' : FileTree}
    (h : Settled o t targets ds result t')
    (hsame : ∀ target ∈ targets, t''.at? (t.place target) = t'.at? (t.place target)) :
    Settled o t targets ds result t'' := by
  have hholds : ∀ target ∈ targets, Holds o t t' ds target → Holds o t t'' ds target := by
    rintro target ht ⟨text, hlast, hcontent⟩
    exact ⟨text, hlast, (FileTree.contentAt?_congr (hsame target ht)).trans hcontent⟩
  refine ⟨fun hr target ht => (hsame target ht).trans (h.untouched hr target ht),
    fun hr target ht => hholds target ht (h.succeeded hr target ht), fun hr hne => ?_⟩
  obtain ⟨before, target, after, rfl, hfailed, hbefore, hafter⟩ := h.unwritten hr hne
  exact ⟨before, target, after, rfl, hfailed,
    fun b hb => hholds b (List.mem_append_left _ hb) (hbefore b hb),
    fun a ha => (hsame a (List.mem_append_right _ ha)).trans (hafter a ha)⟩

namespace Course

variable {w world : σ} {result : Verification}

/-- **The text that was submitted last** for a candidate is its content. -/
theorem lastWritten_history (c : Course env o w files world result) (h : Prepared o t c.repaired)
    (hended : c.ended = .ok .success) (hf : f ∈ c.repaired) :
    lastWritten f.path c.history = some f.content := by
  -- after the attempts nothing is written to a candidate
  have hnone : ∀ d ∈ c.back ++ (c.removals ++ c.waits), d.textFor? f.path = none := by
    intro d hd
    rcases List.mem_append.1 hd with hd | hd
    · refine textFor?_of_write (c.verdict.isWriteTo d hd).2 fun hm => ?_
      obtain ⟨g, hg, hgf⟩ := List.mem_map.1 hm
      exact h.target_ne_path hf hg hgf
    · rcases List.mem_append.1 hd with hd | hd
      · exact textFor?_of_removal (c.removals_of_leftovers d hd) _
      · exact textFor?_of_waiting (c.waits_waiting d hd) _
  rw [history, lastWritten_append_of_none hnone]
  exact h.lastWritten_of_submitted (c.submitted hended) hf

/-- Until something is written back, the targets stand. -/
theorem tried_stands (c : Course env o w files world result) (h : Prepared o (env.tree w) c.repaired)
    (aloof : Aloof env (c.repaired.map fun f => (env.tree w).place f.target)) (hf : f ∈ c.repaired) :
    Stands env (env.tree w) ((env.tree w).place f.target) c.tried :=
  c.tries_lead.stands aloof (List.mem_map_of_mem hf) (h.there hf)
    (fun d hd => h.spared_by_routine hf ((isRoutine_congr c.identity).2 (c.tries_routine d hd)))
    ⟨rfl, rfl⟩

/-- Cleaning up leaves the targets as they are. -/
theorem handed_stands (c : Course env o w files world result) (h : Prepared o (env.tree w) c.repaired)
    (aloof : Aloof env (c.repaired.map fun f => (env.tree w).place f.target)) (hf : f ∈ c.repaired)
    (hhome : (env.tree c.concluded).home = (env.tree w).home)
    (there : (env.tree c.concluded).at? ((env.tree w).place f.target) ≠ none) :
    Stands env (env.tree c.concluded) ((env.tree w).place f.target) c.handed := by
  have hremovals := c.removals_of_leftovers
  refine (c.removals_lead.append c.waits_lead).stands aloof (List.mem_map_of_mem hf) there
    (fun d hd => ?_) ⟨rfl, rfl⟩
  have hspared : ¬ d.IsReversion ∧ ¬ d.Touches (env.tree w) ((env.tree w).place f.target) := by
    rcases List.mem_append.1 hd with hd | hd
    · rw [← leftovers_congr c.identity] at hremovals
      exact h.spared_by_removal hf (hremovals d hd)
    · exact Prepared.spared_by_waiting (c.waits_waiting d hd) _
  exact ⟨hspared.1, mt (touches_congr hhome).1 hspared.2⟩

/-- Putting the watched directory back leaves alone what it leaves alone. -/
theorem reverted_at? (c : Course env o w files world result) {ls : List Location} {l : Location}
    (reverts : RevertsAloof env ls) (hl : l ∈ ls) : (env.tree world).at? l = (env.tree c.handed).at? l := by
  have hworld : world = (env.revert o.watchDirectory c.handed).2 :=
    (congrArg Prod.snd c.revert_leads).symm
  exact (congrArg (fun u => (env.tree u).at? l) hworld).trans (reverts o.watchDirectory c.handed l hl)

/-- **What a course leaves of its targets.** -/
theorem settled (c : Course env o w files world result) {targets : List Text}
    (h : stage o (env.tree w) targets = .ok files) (names : (targets.map Path.fileName).Nodup)
    (apart : Apart o (env.tree w) targets) (aloof : Aloof env (targets.map (env.tree w).place)) :
    Settled o (env.tree w) targets c.history result (env.tree c.handed) := by
  have hfiles := Prepared.of_stage h names apart
  have hrepaired := hfiles.congr c.identity
  have htargets : c.repaired.map (·.target) = targets :=
    (map_eq_of_identity (·.1) c.identity).trans (stage_spec h).1
  have haloof : Aloof env (c.repaired.map fun f => (env.tree w).place f.target) := by
    rw [← htargets, List.map_map] at aloof
    exact aloof
  have hsame : ∀ f ∈ c.repaired, f.changed = false → f.content = f.former := fun f hf =>
    content_of_unchanged (fresh_of_stage h) hfiles.names c.repairs hf
  obtain ⟨written, kept, hsplit, hwritten, hkept, hcases⟩ := hrepaired.verdict_spec haloof hsame
    c.verdict c.back_lead fun f hf => c.tried_stands hrepaired haloof hf
  -- what has not been written back is as it was at the beginning
  have huntouched : ∀ f ∈ kept, Untouched (env.tree w) (env.tree c.handed) f.target := by
    intro f hf
    have hmem : f ∈ c.repaired := hsplit ▸ List.mem_append_right _ hf
    obtain ⟨hhome, hat⟩ := hkept f hf
    exact (c.handed_stands hrepaired haloof hmem hhome (hat ▸ hrepaired.there hmem)).2.trans hat
  -- what has been written back holds the last text that its candidate was given
  have hholds : c.ended = .ok .success → ∀ f ∈ written,
      Holds o (env.tree w) (env.tree c.handed) c.history f.target := by
    intro hended f hf
    have hmem : f ∈ c.repaired := hsplit ▸ List.mem_append_left _ hf
    obtain ⟨hhome, hcontent⟩ := hwritten f hf
    have there : (env.tree c.concluded).at? ((env.tree w).place f.target) ≠ none := fun hnone => by
      simp [FileTree.contentAt?, hnone] at hcontent
    have hend := (c.handed_stands hrepaired haloof hmem hhome there).2
    refine ⟨f.content, ?_, (FileTree.contentAt?_congr hend).trans hcontent⟩
    rw [← (hrepaired.fits f hmem).2.1]
    exact c.lastWritten_history hrepaired hended hmem
  have hof : ∀ target ∈ targets, ∃ f ∈ c.repaired, f.target = target := fun target ht =>
    List.mem_map.1 (htargets ▸ ht)
  -- nothing was written back, or all of it, or it was broken off at one target
  rcases hcases with ⟨hended, houtcome, rfl⟩ | ⟨hended, houtcome, rfl⟩ |
    ⟨hended, houtcome, f, after, text, e, rfl, hfailed⟩
  · refine ⟨fun _ target ht => ?_, fun hout => absurd hout houtcome,
      fun hr => absurd (c.accepted.2 hr) hended⟩
    obtain ⟨f, hf, rfl⟩ := hof target ht
    exact huntouched f (by rwa [hsplit, List.nil_append] at hf)
  · refine ⟨fun hr => absurd (c.accepted.1 hended) hr, fun _ target ht => ?_,
      fun _ hout => absurd houtcome hout⟩
    obtain ⟨f, hf, rfl⟩ := hof target ht
    exact hholds hended f (by rwa [hsplit, List.append_nil] at hf)
  · refine ⟨fun hr => absurd (c.accepted.1 hended) hr, fun hout => absurd hout houtcome,
      fun _ _ => ⟨written.map (·.target), f.target, after.map (·.target), ?_, ⟨text, e, ?_⟩, ?_, ?_⟩⟩
    · rw [← htargets, hsplit, List.map_append, List.map_cons]
    · exact List.mem_append_right _ (List.mem_append_left _ hfailed)
    · intro b hb
      obtain ⟨g, hg, rfl⟩ := List.mem_map.1 hb
      exact hholds hended g hg
    · intro a ha
      obtain ⟨g, hg, rfl⟩ := List.mem_map.1 (show a ∈ (f :: after).map (·.target) from ha)
      exact huntouched g hg

end Course

/-- **What becomes of the targets of a verification.** They have different names and are apart from all
the files beside them, and the surroundings leave them alone while the verification sleeps, reads the log
or asks whether it is cancelled. Then they are settled when the watched directory is put back, and also at
the end if that leaves them alone. -/
theorem verify_settles_targets (env : Surroundings σ) (o : VerifyOptions) (targets baseline : List Text)
    (w : σ) (names : (targets.map Path.fileName).Nodup) (apart : Apart o (env.tree w) targets)
    (aloof : Aloof env (targets.map (env.tree w).place)) :
    ∃ ds handed, Dealings env w ds handed ∧ (∀ d ∈ ds, ¬ d.IsReversion) ∧
      ((verify env o targets baseline w).world = handed ∨ ∃ reversion,
        (Dealing.reverted o.watchDirectory reversion).Leads env handed
          (verify env o targets baseline w).world) ∧
      Settled o (env.tree w) targets ds (verify env o targets baseline w).result (env.tree handed) ∧
      (RevertsAloof env (targets.map (env.tree w).place) →
        Settled o (env.tree w) targets ds (verify env o targets baseline w).result
          (env.tree (verify env o targets baseline w).world)) := by
  cases h : stage o (env.tree w) targets with
  | error e =>
    obtain ⟨hworld, hresult⟩ := verify_unstaged env baseline h
    have hsettled : Settled o (env.tree w) targets [] (verify env o targets baseline w).result
        (env.tree w) := by
      rw [hresult]
      exact ⟨fun _ _ _ => rfl, nofun, fun hr => absurd hr nofun⟩
    rw [hworld]
    exact ⟨[], w, .nil, by simp, .inl rfl, hsettled, fun _ => hsettled⟩
  | ok files =>
    obtain ⟨c⟩ := verify_course env baseline h
    have hsettled := c.settled h names apart aloof
    refine ⟨c.history, c.handed, c.history_leads, c.history_not_reversion,
      .inr ⟨c.reversion, c.revert_leads⟩, hsettled, fun reverts => hsettled.congr fun target ht => ?_⟩
    exact c.reverted_at? reverts (List.mem_map_of_mem ht)

/-- A target whose candidate compiles at once holds what was submitted. -/
theorem settled_target_of_prompt_compiler :
    let t : FileTree := { entries := [(["a.scss".toList], .file "b{}".toList false)] }
    let o : VerifyOptions := { watchDirectory := "w".toList, candidatePrefix := "sb-".toList }
    let env := Surroundings.sleeping fun t => t.put ["w".toList, "sb-a.css".toList] (.file [] false)
    ∃ ds, Holds o t (env.tree (verify env o ["a.scss".toList] [] (t, 0)).world) ds "a.scss".toList := by
  intro t o env
  have aloof : Aloof env (["a.scss".toList].map t.place) :=
    aloof_sleeping_put (by simp) (by decide)
  have succeeded : (verify env o ["a.scss".toList] [] (t, 0)).result.outcome = .succeeded := by
    decide
  obtain ⟨ds, handed, -, -, -, -, hend⟩ := verify_settles_targets env o ["a.scss".toList] []
    (t, 0) (by decide) (by unfold Apart; decide) aloof
  exact ⟨ds, (hend fun _ _ _ _ => rfl).succeeded succeeded _ (by simp)⟩

end Flatsheet.Repair
