import Flatsheet.Proofs.System.Agree
import Flatsheet.Proofs.System.Straight
import Flatsheet.Proofs.Theme.Schedule

/-!
# `Proofs.Theme.Order` — the order in which groups are converted does not matter

On every complete schedule the same comes of a theme (`results_of_complete`, `events_of_complete`, `tree_of_complete`):
each task goes the way that it goes when it has the tree for itself.

The argument compares the tree of the schedule with those trees. While a task reads, what the others have written is
none of its business (`Base.reading_eq`, `Base.draftProcessed_eq`). The directory of all files is made once
(`Base.withParent_eq`). From then on a task works at its own spots, and there the tree of the schedule is the tree that
the task would have for itself (`step_alike`). So what is at the spots of a task in the end is what it leaves there
alone (`Course`), and everywhere else the tree is the first one with the directory made (`Base`).
-/

namespace Flatsheet.Theme

open Text FileTree Flatsheet.Path

variable {s : Settings} {o : MigrationOptions} {g h : SourceGroup} {t u v : FileTree}

/-! ## Directories that are apart -/

/-- **The files that are written do not concern the fragments that are read**, and the way to either of them does not
go back from a directory that is yet to be made. -/
structure Separate (s : Settings) (o : MigrationOptions) (t : FileTree) : Prop where
  sound : t.Sound
  straight : t.Straight o.dest
  resourceStraight : t.Straight s.resourceDir
  /-- The directory of the files does not lie in that of the resources. -/
  outside : ¬ t.place s.resourceDir <+: t.place o.dest
  /-- A NUL can hide the names of the fragments; then the path does not lead to a file that is written. -/
  hidden : '\x00' ∈ s.resourceDir → t.place s.resourceDir ∉ allSpots o t

/-- The directory of the files is made with this outcome. -/
def Houses (o : MigrationOptions) (t : FileTree) (verdict : Except FileError Unit) (u : FileTree) : Prop :=
  ∀ g ∈ SourceGroup.all, t.withParent (join o.dest g.output) = (verdict, u)

theorem inside_mem : SourceGroup.named "inside" ["style"] ∈ SourceGroup.all := List.mem_cons_self

theorem exists_houses (o : MigrationOptions) (t : FileTree) : ∃ verdict u, Houses o t verdict u :=
  ⟨_, (t.withParent (join o.dest (SourceGroup.named "inside" ["style"]).output)).2, fun g hg =>
    withParent_join_eq (isName_output g hg) (isName_output _ inside_mem) t o.dest⟩

/-- What the tree is like away from the files that are written: as it was before the directory of the files was
tried to be made, or as it is since then. -/
inductive Base (o : MigrationOptions) (t : FileTree) (verdict : Except FileError Unit) (u : FileTree) :
    Bool → FileTree → Prop
  | untouched : Base o t verdict u false t
  | failed {e : FileError} (he : verdict = .error e) : Base o t verdict u true u
  | housed {v : FileTree} (hv : verdict = .ok ()) (agree : Agree (· ∉ allSpots o t) u v) :
      Base o t verdict u true v

section
variable {verdict : Except FileError Unit} {tried : Bool}

theorem Houses.home (hu : Houses o t verdict u) : u.home = t.home := by
  have hhome := withParent_home t (join o.dest (SourceGroup.named "inside" ["style"]).output)
  rw [hu _ inside_mem] at hhome
  exact hhome

theorem Houses.kept (hu : Houses o t verdict u) (m : Location) : Kept (t.way o.dest) t u m := by
  have hkept := kept_withParent t (join o.dest (SourceGroup.named "inside" ["style"]).output) m
  rw [way_parent_join (isName_output _ inside_mem), hu _ inside_mem] at hkept
  exact hkept

/-- Each spot is in the directory of the files. -/
theorem mem_allSpots {m : Location} (hm : m ∈ allSpots o t) : ∃ n, m = t.place o.dest ++ [n] := by
  obtain ⟨g, -, hm⟩ := List.mem_flatMap.1 hm
  simp only [spots, spotsOf, List.mem_cons, List.not_mem_nil, or_false] at hm
  rcases hm with rfl | rfl
  · exact ⟨_, rfl⟩
  · exact ⟨_, rfl⟩

/-- Making the directory of the files makes nothing at the spots of the files. -/
theorem Houses.spots (hu : Houses o t verdict u) (hsep : Separate s o t) {m : Location}
    (hm : m ∈ allSpots o t) : u.at? m = t.at? m := by
  rcases hu.kept m with hsame | ⟨hnone, -, hway⟩
  · exact hsame
  · obtain ⟨n, rfl⟩ := mem_allSpots hm
    exact absurd hway (not_made_below hsep.sound hsep.straight hnone)

theorem Base.grown (hu : Houses o t verdict u) (hv : Base o t verdict u tried v) :
    Grown (t.way o.dest) (allSpots o t) t v := by
  have hkept : ∀ m, t.at? m = some .directory → u.at? m = some .directory := by
    intro m hm
    rw [(hu.kept m).at?_eq (by rw [hm]; exact nofun)]
    exact hm
  cases hv with
  | untouched => exact .refl _ _ t
  | failed he => exact ⟨hu.home, hkept, fun m _ => hu.kept m⟩
  | housed hv agree =>
    refine ⟨agree.home.trans hu.home, fun m hm => (agree.directories m).2 (hkept m hm), fun m hm => ?_⟩
    exact (hu.kept m).trans_eq (agree.same m hm)

/-- A directory was there, or nothing was there. -/
theorem Base.directory (hu : Houses o t verdict u) (hv : Base o t verdict u tried v) {m : Location}
    (hm : v.at? m = some .directory) : t.at? m = some .directory ∨ t.at? m = none := by
  have hmade : u.at? m = some .directory → t.at? m = some .directory ∨ t.at? m = none := by
    intro hdir
    rcases hu.kept m with hsame | ⟨hnone, -⟩
    · exact .inl (hsame.symm.trans hdir)
    · exact .inr hnone
  cases hv with
  | untouched => exact .inl hm
  | failed he => exact hmade hm
  | housed hv agree => exact hmade ((agree.directories m).1 hm)

/-! ## Reading -/

theorem appendAll_congr {directory : Text} {fs : List BrandFragment}
    (hread : ∀ f ∈ fs, v.read (join directory f.file) = t.read (join directory f.file)) (a : Appended) :
    appendAll directory v a fs = appendAll directory t a fs := by
  induction fs generalizing a with
  | nil => rfl
  | cons f fs ih =>
    have hrest := ih fun f' hf' => hread f' (List.mem_cons_of_mem _ hf')
    unfold appendAll
    rw [hread f List.mem_cons_self]
    split
    · exact hrest a
    · split
      · rfl
      · exact hrest _

theorem fragment_names : ∀ f ∈ [(⟨"cookie-banner.scss".toList, [".cookie-banner".toList]⟩ : BrandFragment),
    ⟨"directions-row.scss".toList, ["#mapRow".toList, "#directionsBox".toList]⟩],
    IsName f.file ∧ ∀ g ∈ SourceGroup.all, f.file ≠ g.output ∧ f.file ≠ temporaryName g.output := by
  decide

/-- A fragment has a name that no group writes, and its brand has a name too. -/
theorem ofBrand_names {brand : Text} {f : BrandFragment} (hf : f ∈ BrandFragment.ofBrand brand) :
    IsName (lower brand) ∧ IsName f.file ∧
      ∀ g ∈ SourceGroup.all, f.file ≠ g.output ∧ f.file ≠ temporaryName g.output := by
  unfold BrandFragment.ofBrand at hf
  split at hf
  · next hbrand =>
    rw [hbrand]
    exact ⟨by decide, fragment_names f hf⟩
  · cases hf

/-- The place of a fragment is no spot. -/
theorem fragment_not_mem_spots {brand : Text} {f : BrandFragment} (hf : f ∈ BrandFragment.ofBrand brand)
    (hsep : Separate s o t) :
    t.place (join (join s.resourceDir (lower brand)) f.file) ∉ allSpots o t := by
  obtain ⟨hbrand, hfile, hnames⟩ := ofBrand_names hf
  by_cases hnul : '\x00' ∈ s.resourceDir
  · rw [place_join_of_nul hfile ((nul_mem_join hbrand).2 hnul), place_join_of_nul hbrand hnul]
    exact hsep.hidden hnul
  · rw [place_join hfile fun hmem => hnul ((nul_mem_join hbrand).1 hmem)]
    intro hm
    obtain ⟨g, hg, hm⟩ := List.mem_flatMap.1 hm
    obtain ⟨hout, htmp⟩ := hnames g hg
    simp only [spots, spotsOf, List.mem_cons, List.not_mem_nil, or_false] at hm
    rcases hm with hm | hm
    · exact hout (List.singleton_inj.1 (List.append_inj_right' hm rfl))
    · exact htmp (List.singleton_inj.1 (List.append_inj_right' hm rfl))

/-- **What groups write does not change the fragments of a brand.** -/
theorem Base.read_fragment (hu : Houses o t verdict u) (hv : Base o t verdict u tried v)
    (hsep : Separate s o t) {brand : Text} {f : BrandFragment} (hf : f ∈ BrandFragment.ofBrand brand) :
    v.read (join (join s.resourceDir (lower brand)) f.file) =
      t.read (join (join s.resourceDir (lower brand)) f.file) := by
  obtain ⟨hbrand, hfile, -⟩ := ofBrand_names hf
  have hgrown := hv.grown hu
  have hend : v.at? (t.place (join (join s.resourceDir (lower brand)) f.file)) =
      t.at? (t.place (join (join s.resourceDir (lower brand)) f.file)) := by
    rcases hgrown.others _ (fragment_not_mem_spots hf hsep) with hsame | ⟨hnone, -, hway⟩
    · exact hsame
    · -- a directory that is made for the files is not in that of the resources
      have hbelow := prefix_of_missing_way hsep.sound hsep.straight hway hnone
      exact absurd (((place_prefix_join hbrand t _).trans (place_prefix_join hfile t _)).trans hbelow)
        hsep.outside
  have hnode := node?_of_straight hsep.sound ((hsep.resourceStraight.join hbrand).join hfile) hgrown.home
    hgrown.directories (fun m => hv.directory hu) hend
  unfold FileTree.read
  rw [hnode]

/-- **What other groups have written is none of the business of a group that reads its style sheets.** -/
theorem Base.reading_eq (hu : Houses o t verdict u) (hv : Base o t verdict u tried v)
    (hd : t.isDirectory (styleDirectory o.source) = true) (hg : g ∈ SourceGroup.all) :
    reading s o g v = reading s o g t :=
  reading_congr (readSources_grown hd (hv.grown hu) hg)

/-- Nor is it the business of a group that reads its fragments. -/
theorem Base.draftProcessed_eq (hu : Houses o t verdict u) (hv : Base o t verdict u tried v)
    (hsep : Separate s o t) (f : FileSummary) (p : Processed) (notes : List Note) :
    draftProcessed s o g f p notes v = draftProcessed s o g f p notes t := by
  apply draftProcessed_congr
  intro output
  unfold finishOutput
  split
  · exact appendAll_congr (fun f hf => hv.read_fragment hu hsep hf) _
  · rfl

/-! ## Writing -/

/-- How far a task has come that has the tree for itself, and what the tree is like then. -/
inductive Stage (s : Settings) (o : MigrationOptions) (t : FileTree) (verdict : Except FileError Unit)
    (u : FileTree) (g : SourceGroup) : Task → FileTree → Prop
  | waiting : Stage s o t verdict u g .waiting t
  | processed {f : FileSummary} {p : Processed} {notes : List Note}
      (hreading : reading s o g t = .processed f p notes) :
      Stage s o t verdict u g (.processed f p) t
  | drafted {f : FileSummary} {content : Text} {flawless : Bool} {notes : List Note}
      (hdraft : draft s o g t = .ready f content flawless notes) :
      Stage s o t verdict u g (.drafted f content flawless) t
  | housed {f : FileSummary} {content : Text} {flawless : Bool} {notes : List Note}
      (hdraft : draft s o g t = .ready f content flawless notes) (hverdict : verdict = .ok ()) :
      Stage s o t verdict u g (.housed f content flawless) u
  | stored {f : FileSummary} {content : Text} {flawless : Bool} {notes : List Note} {v : FileTree}
      (hdraft : draft s o g t = .ready f content flawless notes) (hverdict : verdict = .ok ())
      (hcreate : u.create (temporaryName f.output) content = .ok v) :
      Stage s o t verdict u g (.stored f content flawless) v
  | done {result : Except Text (Option FileSummary)} {v : FileTree} :
      Stage s o t verdict u g (.done result) v

/-- The file of the group is to be written. -/
def Ready (s : Settings) (o : MigrationOptions) (t : FileTree) (g : SourceGroup) : Prop :=
  ∃ f content flawless notes, draft s o g t = .ready f content flawless notes

/-- The task has tried to make the directory of its file. -/
def Tried (s : Settings) (o : MigrationOptions) (t : FileTree) (g : SourceGroup) : Task → Prop
  | .waiting => False
  | .processed .. => False
  | .drafted .. => False
  | .housed .. => True
  | .stored .. => True
  | .done _ => Ready s o t g

/-- What a step in the tree of a schedule has to do with the step of the task that has the tree for itself. -/
structure StepAlike (s : Settings) (o : MigrationOptions) (t : FileTree) (verdict : Except FileError Unit)
    (u : FileTree) (g : SourceGroup) (tried : Bool) (v : FileTree) (alone together : Task × List Note × FileTree) :
    Prop where
  task : together.1 = alone.1
  notes : together.2.1 = alone.2.1
  stage : Stage s o t verdict u g alone.1 alone.2.2
  base : ∃ tried', Base o t verdict u tried' together.2.2 ∧ (tried' = true ↔ tried = true ∨ Tried s o t g alone.1)
  own : ∀ m ∈ spots o t g, together.2.2.at? m = alone.2.2.at? m
  others : ∀ m ∈ allSpots o t, m ∉ spots o t g → together.2.2.at? m = v.at? m

theorem step_waiting (hu : Houses o t verdict u) (hd : t.isDirectory (styleDirectory o.source) = true)
    (hg : g ∈ SourceGroup.all) (hv : Base o t verdict u tried v) (hown : ∀ m ∈ spots o t g, v.at? m = t.at? m) :
    StepAlike s o t verdict u g tried v (Task.step s o g .waiting t) (Task.step s o g .waiting v) := by
  simp only [Task.step]
  rw [hv.reading_eq hu hd hg]
  cases hreading : reading s o g t with
  | settled result =>
    refine ⟨rfl, rfl, .done, ⟨tried, hv, ?_⟩, hown, fun _ _ _ => rfl⟩
    simp [Tried, Ready, draft, hreading]
  | processed f p notes =>
    refine ⟨rfl, rfl, .processed hreading, ⟨tried, hv, ?_⟩, hown, fun _ _ _ => rfl⟩
    simp [Tried]

theorem step_processed (hu : Houses o t verdict u) (hsep : Separate s o t) (hv : Base o t verdict u tried v)
    (hown : ∀ m ∈ spots o t g, v.at? m = t.at? m) {f : FileSummary} {p : Processed} {notes : List Note}
    (hreading : reading s o g t = .processed f p notes) :
    StepAlike s o t verdict u g tried v (Task.step s o g (.processed f p) t)
      (Task.step s o g (.processed f p) v) := by
  have hdraft : draft s o g t = (draftProcessed s o g f p [] t).after notes := by
    unfold draft
    rw [hreading]
    exact draftProcessed_after s o g f p notes t
  simp only [Task.step]
  rw [hv.draftProcessed_eq hu hsep]
  cases hnext : draftProcessed s o g f p [] t with
  | settled result =>
    rw [hnext] at hdraft
    refine ⟨rfl, rfl, .done, ⟨tried, hv, ?_⟩, hown, fun _ _ _ => rfl⟩
    simp [Tried, Ready, hdraft, Draft.after]
  | ready f' content flawless more =>
    rw [hnext] at hdraft
    refine ⟨rfl, rfl, .drafted hdraft, ⟨tried, hv, ?_⟩, hown, fun _ _ _ => rfl⟩
    simp [Tried]

/-- The file of a group that is to be written is in the directory of the files. -/
theorem output_of_ready {f : FileSummary} {content : Text} {flawless : Bool} {notes : List Note}
    (hdraft : draft s o g t = .ready f content flawless notes) : f.output = join o.dest g.output := by
  have hdrafted := drafted s o g t
  rw [hdraft] at hdrafted
  cases hdrafted with
  | ready described => exact described.output

theorem tried_of_ready {f : FileSummary} {content : Text} {flawless : Bool} {notes : List Note}
    (hdraft : draft s o g t = .ready f content flawless notes) (result : Except Text (Option FileSummary)) :
    Tried s o t g (.done result) := ⟨f, content, flawless, notes, hdraft⟩

/-- **The directory of the files is made once**, and for every task with the same outcome. -/
theorem Base.withParent_eq (hu : Houses o t verdict u) (hsep : Separate s o t) (hg : g ∈ SourceGroup.all)
    (hv : Base o t verdict u tried v) :
    ∃ v', v.withParent (join o.dest g.output) = (verdict, v') ∧ Base o t verdict u true v' ∧
      ∀ m ∈ allSpots o t, v'.at? m = v.at? m := by
  have hname := isName_output g hg
  have hagain := withParent_again hsep.sound hsep.straight hname (hu g hg)
  cases hv with
  | untouched =>
    refine ⟨u, hu g hg, ?_, fun m hm => hu.spots hsep hm⟩
    cases verdict with
    | error e => exact .failed rfl
    | ok => exact .housed rfl (.refl _ u)
  | failed he => exact ⟨u, hagain, .failed he, fun _ _ => rfl⟩
  | housed hok agree =>
    subst hok
    refine ⟨v, ?_, .housed rfl agree, fun _ _ => rfl⟩
    apply withParent_of_directories hname (hu g hg) (agree.home.trans hu.home)
    intro m hm
    exact (agree.directories m).2 (directory_of_withParent_join hname (hu g hg) m hm)

theorem step_drafted (hu : Houses o t verdict u) (hsep : Separate s o t) (hg : g ∈ SourceGroup.all)
    (hv : Base o t verdict u tried v) (hown : ∀ m ∈ spots o t g, v.at? m = t.at? m)
    {f : FileSummary} {content : Text} {flawless : Bool} {notes : List Note}
    (hdraft : draft s o g t = .ready f content flawless notes) :
    StepAlike s o t verdict u g tried v (Task.step s o g (.drafted f content flawless) t)
      (Task.step s o g (.drafted f content flawless) v) := by
  obtain ⟨v', hparent, hbase, hspots⟩ := hv.withParent_eq hu hsep hg
  have hown' : ∀ m ∈ spots o t g, v'.at? m = u.at? m := by
    intro m hm
    rw [hspots m (spots_subset hg o t hm), hown m hm, hu.spots hsep (spots_subset hg o t hm)]
  simp only [Task.step]
  rw [output_of_ready hdraft, hu g hg, hparent]
  cases verdict with
  | error cause =>
    refine ⟨rfl, rfl, .done, ⟨true, hbase, ?_⟩, hown', fun m hm _ => hspots m hm⟩
    simp [Task.finish, tried_of_ready hdraft]
  | ok =>
    refine ⟨rfl, rfl, .housed hdraft rfl, ⟨true, hbase, ?_⟩, hown', fun m hm _ => hspots m hm⟩
    simp [Tried]

/-- Once a task works at its own spots, its tree agrees there with that of the schedule. -/
theorem Base.agree (hv : Base o t (.ok ()) u true v) {w : FileTree} (hw : Agree (fun _ => False) u w)
    (hown : ∀ m ∈ spots o t g, v.at? m = w.at? m) : Agree (· ∈ spots o t g) w v := by
  cases hv with
  | failed he => cases he
  | housed _ agree =>
    have hall := hw.symm.trans (agree.mono fun _ hm => hm.elim)
    exact ⟨hall.home, hall.directories, hown⟩

/-- A change at the spots of a group changes nothing elsewhere. -/
theorem Base.step (hv : Base o t (.ok ()) u true v) (hg : g ∈ SourceGroup.all) {v' : FileTree}
    (hstep : Agree (· ∉ spots o t g) v v') : Base o t (.ok ()) u true v' := by
  cases hv with
  | failed he => cases he
  | housed _ agree =>
    exact .housed rfl (agree.trans (hstep.mono fun _ hm hmem => hm (spots_subset hg o t hmem)))

/-- The temporary name of the file leads to a spot of the group. -/
theorem temporaryPlace_mem (hg : g ∈ SourceGroup.all) (hnul : '\x00' ∉ o.dest) (hhome : v.home = t.home) :
    v.place (temporaryName (join o.dest g.output)) ∈ spots o t g := by
  have hname := isName_output g hg
  rw [place_congr hhome, temporaryName_join hname, place_join (isName_temporaryName hname) hnul]
  simp [spots, spotsOf]

theorem place_mem (hg : g ∈ SourceGroup.all) (hnul : '\x00' ∉ o.dest) (hhome : v.home = t.home) :
    v.place (join o.dest g.output) ∈ spots o t g := by
  rw [place_congr hhome, place_join (isName_output g hg) hnul]
  simp [spots, spotsOf]

/-- **Creating the temporary file comes to the same** in the tree of a schedule. -/
theorem Base.create (hu : Houses o t (.ok ()) u) (hg : g ∈ SourceGroup.all) (hv : Base o t (.ok ()) u true v)
    (hown : ∀ m ∈ spots o t g, v.at? m = u.at? m) (content : Text) :
    (∃ e e', u.create (temporaryName (join o.dest g.output)) content = .error e ∧
      v.create (temporaryName (join o.dest g.output)) content = .error e') ∨
    ∃ u' v', u.create (temporaryName (join o.dest g.output)) content = .ok u' ∧
      v.create (temporaryName (join o.dest g.output)) content = .ok v' ∧ '\x00' ∉ o.dest ∧
      Agree (· ∈ spots o t g) u' v' := by
  have hname := isName_output g hg
  have hagree := hv.agree (.refl _ u) hown
  by_cases hnul : '\x00' ∈ o.dest
  · -- the names of the files are hidden
    have hdirs : ∀ m ∈ t.way o.dest, u.at? m = some .directory :=
      directory_of_withParent_join hname (hu g hg)
    rw [temporaryName_join hname]
    obtain ⟨e, he⟩ := create_of_nul (isName_temporaryName hname) hnul
      (by rwa [way_congr hu.home]) content
    obtain ⟨e', he'⟩ := create_of_nul (t := v) (isName_temporaryName hname) hnul
      (by
        rw [way_congr (hagree.home.trans hu.home)]
        exact fun m hm => (hagree.directories m).2 (hdirs m hm)) content
    exact .inl ⟨e, e', he, he'⟩
  · have hspot := temporaryPlace_mem hg hnul hu.home
    cases hcreate : u.create (temporaryName (join o.dest g.output)) content with
    | error e =>
      obtain ⟨e', he'⟩ := hagree.create_error hspot hcreate
      exact .inl ⟨e, e', rfl, he'⟩
    | ok u' =>
      obtain ⟨v', hv', hagree'⟩ := hagree.create hspot hcreate
      exact .inr ⟨u', v', rfl, hv', hnul, hagree'⟩

theorem step_housed (hu : Houses o t (.ok ()) u) (hg : g ∈ SourceGroup.all)
    (hv : Base o t (.ok ()) u true v) (hown : ∀ m ∈ spots o t g, v.at? m = u.at? m)
    {f : FileSummary} {content : Text} {flawless : Bool} {notes : List Note}
    (hdraft : draft s o g t = .ready f content flawless notes) :
    StepAlike s o t (.ok ()) u g true v (Task.step s o g (.housed f content flawless) u)
      (Task.step s o g (.housed f content flawless) v) := by
  simp only [Task.step]
  rcases hv.create hu hg hown content with ⟨e, e', he, he'⟩ | ⟨u', v', he, he', hnul, hagree⟩
  · rw [output_of_ready hdraft, he, he']
    exact ⟨rfl, rfl, .done, ⟨true, hv, by simp⟩, hown, fun _ _ _ => rfl⟩
  · have hhome : v.home = t.home := (hv.grown hu).home
    have hstep : Agree (· ∉ spots o t g) v v' := by
      apply (agree_of_create he').mono
      rintro m hm rfl
      exact hm (temporaryPlace_mem hg hnul hhome)
    rw [← output_of_ready hdraft] at he he'
    rw [he, he']
    exact ⟨rfl, rfl, .stored hdraft rfl he, ⟨true, hv.step hg hstep, by simp⟩, hagree.same,
      fun m _ hm => hstep.same m hm⟩

/-- The tree of a task whose content is in the file of the temporary name. -/
structure Stored (o : MigrationOptions) (t u : FileTree) (g : SourceGroup) (content : Text) (w : FileTree) :
    Prop where
  agree : Agree (fun _ => False) u w
  home : w.home = t.home
  nul : '\x00' ∉ o.dest
  locate : w.locate (temporaryName (join o.dest g.output)) =
    .ok (w.place (temporaryName (join o.dest g.output)))
  file : ∃ x, w.at? (w.place (temporaryName (join o.dest g.output))) = some (.file content x)

theorem stored_of_create (hu : Houses o t (.ok ()) u) (hg : g ∈ SourceGroup.all) {content : Text}
    {w : FileTree} (hcreate : u.create (temporaryName (join o.dest g.output)) content = .ok w) :
    Stored o t u g content w := by
  have hname := isName_output g hg
  have hw := agree_of_create hcreate
  have hplace := place_congr hw.home (temporaryName (join o.dest g.output))
  obtain ⟨hl, -, hfree, hput⟩ := create_iff.1 hcreate
  refine ⟨hw.mono fun _ hm => hm.elim, hw.home.trans hu.home, ?_, ?_, ?_⟩
  · -- a name that is hidden is that of a directory
    intro hnul
    rw [temporaryName_join hname] at hcreate
    obtain ⟨e, he⟩ := create_of_nul (isName_temporaryName hname) hnul
      (by rw [way_congr hu.home]; exact directory_of_withParent_join hname (hu g hg)) content
    rw [hcreate] at he
    cases he
  · rw [hplace]
    exact hw.locate hl
  · rw [hplace, hput, at?_put _ _ _ (ne_root_of_not_directory hfree), if_pos rfl]
    exact ⟨_, rfl⟩

/-- In a tree that agrees with it, the file is beside its temporary name too. -/
theorem Stored.locate_eq {content : Text} {w : FileTree} (hw : Stored o t u g content w)
    (hg : g ∈ SourceGroup.all) (hagree : Agree (· ∈ spots o t g) w v) :
    v.locate (join o.dest g.output) = w.locate (join o.dest g.output) := by
  have hname := isName_output g hg
  have hlw := hw.locate
  have hlv := hagree.locate hlw
  rw [temporaryName_join hname] at hlv hlw
  rw [locate_beside (isName_temporaryName hname) hname hw.nul hlv,
    locate_beside (isName_temporaryName hname) hname hw.nul hlw, hagree.place_eq]

theorem step_stored (hu : Houses o t (.ok ()) u) (hg : g ∈ SourceGroup.all)
    (hv : Base o t (.ok ()) u true v) {f : FileSummary} {content : Text} {flawless : Bool} {notes : List Note}
    (hdraft : draft s o g t = .ready f content flawless notes) {w : FileTree}
    (hcreate : u.create (temporaryName f.output) content = .ok w)
    (hown : ∀ m ∈ spots o t g, v.at? m = w.at? m) :
    StepAlike s o t (.ok ()) u g true v (Task.step s o g (.stored f content flawless) w)
      (Task.step s o g (.stored f content flawless) v) := by
  rw [output_of_ready hdraft] at hcreate
  have hw := stored_of_create hu hg hcreate
  obtain ⟨x, hfile⟩ := hw.file
  have hagree := hv.agree hw.agree hown
  have hhome : v.home = t.home := hagree.home.trans hw.home
  have hspot := temporaryPlace_mem hg hw.nul hw.home
  have hfree : v.directoryAt (v.place (temporaryName (join o.dest g.output))) = false := by
    rw [hagree.place_eq, hagree.directoryAt_eq]
    simp [directoryAt, hfile]
  -- what the step can change are the places of the temporary file and of the output
  have htmp : ∀ m, m ∉ spots o t g → m ≠ v.place (temporaryName (join o.dest g.output)) := by
    rintro m hm rfl
    exact hm (temporaryPlace_mem hg hw.nul hhome)
  have hout : ∀ m, m ∉ spots o t g → m ≠ v.place (join o.dest g.output) := by
    rintro m hm rfl
    exact hm (place_mem hg hw.nul hhome)
  simp only [Task.step]
  rw [output_of_ready hdraft]
  rcases hagree.rename hspot hw.locate (hw.locate_eq hg hagree) hfile with
    ⟨e, he, he'⟩ | ⟨w', v', he, he', hafter⟩
  · -- both renamings fail, and the temporary file goes
    have hstep := (agree_of_removed hfree).mono htmp
    rw [he, he']
    exact ⟨rfl, rfl, .done, ⟨true, hv.step hg hstep, by simp⟩, (hagree.removed hspot hw.locate hfile).same,
      fun m _ hm => hstep.same m hm⟩
  · have hstep : Agree (· ∉ spots o t g) v v' :=
      (agree_of_rename he' hfree).mono fun m hm => ⟨htmp m hm, hout m hm⟩
    rw [he, he']
    exact ⟨rfl, rfl, .done, ⟨true, hv.step hg hstep, by simp⟩, hafter.same, fun m _ hm => hstep.same m hm⟩

/-- **A step of a task comes to the same in the tree of a schedule** as when the task has the tree for
itself. -/
theorem step_alike (hu : Houses o t verdict u) (hsep : Separate s o t)
    (hd : t.isDirectory (styleDirectory o.source) = true) (hg : g ∈ SourceGroup.all) {x : Task} {w : FileTree}
    (hx : Stage s o t verdict u g x w) (hv : Base o t verdict u tried v)
    (htried : Tried s o t g x → tried = true) (hown : ∀ m ∈ spots o t g, v.at? m = w.at? m) :
    StepAlike s o t verdict u g tried v (x.step s o g w) (x.step s o g v) := by
  cases hx with
  | waiting => exact step_waiting hu hd hg hv hown
  | processed hreading => exact step_processed hu hsep hv hown hreading
  | drafted hdraft => exact step_drafted hu hsep hg hv hown hdraft
  | housed hdraft hverdict =>
    obtain rfl := htried trivial
    subst hverdict
    exact step_housed hu hg hv hown hdraft
  | stored hdraft hverdict hcreate =>
    obtain rfl := htried trivial
    subst hverdict
    exact step_stored hu hg hv hdraft hcreate hown
  | done =>
    refine ⟨rfl, rfl, .done, ⟨tried, hv, ?_⟩, hown, fun _ _ _ => rfl⟩
    exact ⟨.inl, fun h => h.elim id htried⟩

theorem ready_of_tried {x : Task} {w : FileTree} (hx : Stage s o t verdict u g x w) (h : Tried s o t g x) :
    Ready s o t g := by
  cases hx with
  | waiting => exact h.elim
  | processed hreading => exact h.elim
  | drafted hdraft => exact h.elim
  | housed hdraft => exact ⟨_, _, _, _, hdraft⟩
  | stored hdraft => exact ⟨_, _, _, _, hdraft⟩
  | done => exact h

/-! ## Schedules -/

theorem eq_of_number : ∀ e ∈ numberedGroups, ∀ e' ∈ numberedGroups, e.1 = e'.1 → e = e' := by decide

theorem eq_of_group : ∀ e ∈ numberedGroups, ∀ e' ∈ numberedGroups, e.2 = e'.2 → e = e' := by decide

theorem Job.group_mem (j : Job) : j.group ∈ SourceGroup.all := numberedGroups_groups j.1 j.2

theorem Job.number_ne {i j : Job} (h : i ≠ j) : i.number ≠ j.number := fun hn =>
  h (Subtype.ext (eq_of_number i.1 i.2 j.1 j.2 hn))

theorem Job.group_ne {i j : Job} (h : i ≠ j) : i.group ≠ j.group := fun hg =>
  h (Subtype.ext (eq_of_group i.1 i.2 j.1 j.2 hg))

/-- Two groups have no spot in common. -/
theorem spots_apart (hg : g ∈ SourceGroup.all) (hh : h ∈ SourceGroup.all) (hne : g ≠ h) {m : Location}
    (hm : m ∈ spots o t g) : m ∉ spots o t h := by
  obtain ⟨hout, htmp, htmp', htmps⟩ := outputs_apart g hg h hh hne
  intro hm'
  simp only [spots, spotsOf, List.mem_cons, List.not_mem_nil, or_false] at hm hm'
  rcases hm with rfl | rfl
  · rcases hm' with hm' | hm'
    · exact hout (List.singleton_inj.1 (List.append_inj_right' hm' rfl))
    · exact htmp (List.singleton_inj.1 (List.append_inj_right' hm' rfl))
  · rcases hm' with hm' | hm'
    · exact htmp' (List.singleton_inj.1 (List.append_inj_right' hm' rfl))
    · exact htmps (List.singleton_inj.1 (List.append_inj_right' hm' rfl))

/-- **Along a schedule each task is where it would be alone after as many steps**, and at its spots the tree is the
one that it would have for itself. -/
structure Course (s : Settings) (o : MigrationOptions) (t : FileTree) (verdict : Except FileError Unit)
    (u : FileTree) (schedule : List Job) (p : Progress) : Prop where
  works : ∀ j : Job, p.works j.number = (solo s o j.group ({}, t) (schedule.count j)).1
  stages : ∀ j : Job, Stage s o t verdict u j.group (p.works j.number).task
    (solo s o j.group ({}, t) (schedule.count j)).2
  own : ∀ j : Job, ∀ m ∈ spots o t j.group,
    p.tree.at? m = (solo s o j.group ({}, t) (schedule.count j)).2.at? m
  base : ∃ tried, Base o t verdict u tried p.tree ∧
    (∀ j : Job, Tried s o t j.group (p.works j.number).task → tried = true) ∧
    (tried = true → ∃ j : Job, Ready s o t j.group)

theorem Course.start : Course s o t verdict u [] { tree := t } where
  works := fun _ => rfl
  stages := fun _ => .waiting
  own := fun _ _ _ => rfl
  base := ⟨false, .untouched, fun _ h => h.elim, nofun⟩

theorem Course.advance (hu : Houses o t verdict u) (hsep : Separate s o t)
    (hd : t.isDirectory (styleDirectory o.source) = true) {schedule : List Job} {p : Progress}
    (hc : Course s o t verdict u schedule p) (j : Job) :
    Course s o t verdict u (schedule ++ [j]) (p.advance s o j) := by
  obtain ⟨tried, hbase, htried, hready⟩ := hc.base
  have hstep := step_alike hu hsep hd j.group_mem (hc.stages j) hbase (htried j) (hc.own j)
  obtain ⟨tried', hbase', htried'⟩ := hstep.base
  have hcount : (schedule ++ [j]).count j = schedule.count j + 1 := by simp
  have hother : ∀ i, i ≠ j → (schedule ++ [j]).count i = schedule.count i := by
    intro i hi
    simp [Ne.symm hi]
  -- the task that takes the step
  have hsolo : solo s o j.group ({}, t) ((schedule ++ [j]).count j) =
      soloStep s o j.group (p.works j.number, (solo s o j.group ({}, t) (schedule.count j)).2) := by
    rw [hcount, solo, hc.works j]
  have hwork : (p.advance s o j).works j.number = (solo s o j.group ({}, t) ((schedule ++ [j]).count j)).1 := by
    rw [hsolo]
    simp [Progress.advance, soloStep, hstep.task, hstep.notes]
  -- the others
  have hworks : ∀ i : Job, i ≠ j → (p.advance s o j).works i.number = p.works i.number := fun i hi =>
    if_neg (Job.number_ne hi)
  refine ⟨?_, ?_, ?_, tried', hbase', ?_, ?_⟩
  · intro i
    by_cases hi : i = j
    · rw [hi]
      exact hwork
    · rw [hworks i hi, hother i hi]
      exact hc.works i
  · intro i
    by_cases hi : i = j
    · rw [hi, hwork, hsolo]
      exact hstep.stage
    · rw [hworks i hi, hother i hi]
      exact hc.stages i
  · intro i m hm
    by_cases hi : i = j
    · subst hi
      rw [hsolo]
      exact hstep.own m hm
    · -- the task works at its own spots
      rw [hother i hi]
      refine (hstep.others m (spots_subset i.group_mem o t hm) ?_).trans (hc.own i m hm)
      exact spots_apart i.group_mem j.group_mem (Job.group_ne hi) hm
  · intro i hi
    by_cases hij : i = j
    · subst hij
      rw [hwork, hsolo] at hi
      exact htried'.2 (.inr hi)
    · rw [hworks i hij] at hi
      exact htried'.2 (.inl (htried i hi))
  · intro h
    rcases htried'.1 h with h | h
    · exact hready h
    · exact ⟨j, ready_of_tried hstep.stage h⟩

theorem course_run (hu : Houses o t verdict u) (hsep : Separate s o t)
    (hd : t.isDirectory (styleDirectory o.source) = true) (schedule : List Job) :
    Course s o t verdict u schedule (Progress.run s o { tree := t } schedule) := by
  induction schedule using List.reverseRecOn with
  | nil => exact .start
  | append_singleton schedule j ih =>
    rw [run_append]
    exact ih.advance hu hsep hd j

/-- **In the end each group has come to what it comes to alone.** -/
theorem Course.done {schedule : List Job} {p : Progress} (hc : Course s o t verdict u schedule p)
    (complete : Complete schedule) (j : Job) :
    p.works j.number = ⟨.done (convertGroup s o j.group t).1.1, (convertGroup s o j.group t).1.2⟩ ∧
      ∀ m ∈ spots o t j.group, p.tree.at? m = (convertGroup s o j.group t).2.at? m := by
  have hsolo := solo_of_five_le (s := s) (o := o) (g := j.group) (complete j (List.mem_attach _ j)) t
  have hwork := hc.works j
  have hown := hc.own j
  rw [hsolo] at hwork hown
  exact ⟨hwork, hown⟩

/-- In the end the directory of the files has been tried to be made if there is a file to be written. -/
theorem Course.base_done {schedule : List Job} {p : Progress} (hc : Course s o t verdict u schedule p)
    (complete : Complete schedule) :
    ∃ tried, Base o t verdict u tried p.tree ∧ (tried = true ↔ ∃ j : Job, Ready s o t j.group) := by
  obtain ⟨tried, hbase, htried, hready⟩ := hc.base
  refine ⟨tried, hbase, hready, ?_⟩
  rintro ⟨j, hj⟩
  apply htried j
  rw [(hc.done complete j).1]
  exact hj

/-- Trees that are alike at the spots are alike. -/
theorem Base.same {tried' : Bool} {v' : FileTree} (hv : Base o t verdict u tried v)
    (hv' : Base o t verdict u tried' v') (htried : tried = true ↔ tried' = true)
    (hspots : ∀ m ∈ allSpots o t, v'.at? m = v.at? m) : Agree (fun _ => True) v v' := by
  cases hv with
  | untouched =>
    cases hv' with
    | untouched => exact .refl _ t
    | failed => exact absurd (htried.2 rfl) nofun
    | housed => exact absurd (htried.2 rfl) nofun
  | failed he =>
    cases hv' with
    | untouched => exact absurd (htried.1 rfl) nofun
    | failed => exact .refl _ u
    | housed hok => cases he.symm.trans hok
  | housed hok agree =>
    cases hv' with
    | untouched => exact absurd (htried.1 rfl) nofun
    | failed he => cases he.symm.trans hok
    | housed _ agree' =>
      have hboth := agree.symm.trans agree'
      refine ⟨hboth.home, hboth.directories, fun m _ => ?_⟩
      by_cases hm : m ∈ allSpots o t
      · exact hspots m hm
      · exact hboth.same m hm

end

/-- **What has come of the groups in the end is what comes of each of them alone.** -/
theorem results_of_complete (hsep : Separate s o t) (hd : t.isDirectory (styleDirectory o.source) = true)
    {schedule : List Job} (complete : Complete schedule) :
    (Progress.run s o { tree := t } schedule).results =
      numberedGroups.map fun e => (e.1, e.2, (convertGroup s o e.2 t).1) := by
  obtain ⟨verdict, u, hu⟩ := exists_houses o t
  have hc := course_run hu hsep hd schedule
  unfold Progress.results
  apply List.map_congr_left
  intro e he
  rw [(hc.done complete ⟨e, he⟩).1]
  rfl

/-- **Each group is heard as it is heard alone.** -/
theorem events_of_complete (hsep : Separate s o t) (hd : t.isDirectory (styleDirectory o.source) = true)
    {schedule : List Job} (complete : Complete schedule) (j : Job) :
    (Progress.run s o { tree := t } schedule).events.filter (·.correlation = j.number) =
      (convertGroup s o j.group t).1.2.map (⟨·, j.number⟩) := by
  obtain ⟨verdict, u, hu⟩ := exists_houses o t
  rw [(heard_run s o t schedule).each, ((course_run hu hsep hd schedule).done complete j).1]

/-- **In the end the files are the same** on two schedules. -/
theorem tree_of_complete (hsep : Separate s o t) (hd : t.isDirectory (styleDirectory o.source) = true)
    {schedule schedule' : List Job} (complete : Complete schedule) (complete' : Complete schedule') :
    Agree (fun _ => True) (Progress.run s o { tree := t } schedule).tree
      (Progress.run s o { tree := t } schedule').tree := by
  obtain ⟨verdict, u, hu⟩ := exists_houses o t
  have hc := course_run hu hsep hd schedule
  have hc' := course_run hu hsep hd schedule'
  obtain ⟨tried, hbase, htried⟩ := hc.base_done complete
  obtain ⟨tried', hbase', htried'⟩ := hc'.base_done complete'
  refine hbase.same hbase' (htried.trans htried'.symm) fun m hm => ?_
  -- a spot is one of a group
  obtain ⟨g, hg, hm⟩ := List.mem_flatMap.1 hm
  obtain ⟨e, he, rfl⟩ := exists_number g hg
  rw [(hc.done complete ⟨e, he⟩).2 m hm, (hc'.done complete' ⟨e, he⟩).2 m hm]

end Flatsheet.Theme
