import Flatsheet.Proofs.System.FileTree

/-!
# `Proofs.System.Growth` — a tree in which files are written

Files that are written into a directory leave the tree as it is but for their own locations and those of their
temporary names, and for directories that are made on the way. `Grown` says so of any number of files.

* `grown_writeFile` is the step, `Grown.trans` the run.
* In a grown tree every path leads where it led before, if it led somewhere (`locate_of_directories`). So a
  file that has been written is found as long as its location is not among the others
  (`fileText?_of_writeFile`, `Grown.fileText?_eq`), and the files of a directory that was there before
  are the same (`Grown.fileText?_join`).
* A NUL in the path of a directory hides the name of a file in it; then nothing is written
  (`writeFile_of_nul`).
-/

namespace Flatsheet.FileTree

open Text Flatsheet.Path

variable {t t' t'' : FileTree} {path p n content : Text} {l m : Location}
  {made made' spots spots' : List Location}

/-! ## Texts of files -/

/-- The text of the file at a location, if there is a file. -/
def textAt? (t : FileTree) (l : Location) : Option Text :=
  match t.at? l with
  | some (.file content _) => some content
  | _ => none

/-- The text of the file that a path leads to, if it leads to a file. -/
def fileText? (t : FileTree) (path : Text) : Option Text :=
  match t.node? path with
  | some (.file content _) => some content
  | _ => none

/-- A file is found if the path leads to it, and not as if to a directory. -/
theorem fileText?_eq_some : t.fileText? path = some content ↔
    t.locate path = .ok (t.place path) ∧ mustBeDirectory path = false ∧
      t.textAt? (t.place path) = some content := by
  unfold fileText? node?
  cases hl : t.locate path with
  | error e => simp
  | ok l =>
    obtain rfl := locate_eq_place hl
    unfold textAt?
    cases hn : t.at? (t.place path) with
    | none => simp [hn]
    | some node =>
      cases node with
      | directory => simp [hn]
      | file c x =>
        by_cases hd : mustBeDirectory path
        · simp [hn, hd]
        · simp [hn, hd]

/-- What is read of a path that leads to a file is the text of the file. -/
theorem fileText?_eq_read (t : FileTree) (path : Text) :
    t.fileText? path = if t.isFile path then (t.read path).toOption else none := by
  unfold fileText? isFile read
  cases t.node? path with
  | none => rfl
  | some node => cases node <;> rfl

/-! ## Growth -/

/-- **What writing files does to a tree**: directories stay, there can be anything at the spots of the files,
and elsewhere there can be new directories. -/
structure Grown (made spots : List Location) (t t' : FileTree) : Prop where
  home : t'.home = t.home
  directories : ∀ m, t.at? m = some .directory → t'.at? m = some .directory
  others : ∀ m, m ∉ spots → Kept made t t' m

theorem Kept.trans (h : Kept made t t' m) (h' : Kept made t' t'' m) : Kept made t t'' m := by
  rcases h' with h' | ⟨hnone, hdir, hmade⟩
  · exact h.trans_eq h'
  · rcases h with h | ⟨-, hdir', -⟩
    · exact .inr ⟨h.symm.trans hnone, hdir, hmade⟩
    · rw [hdir'] at hnone
      cases hnone

theorem Grown.refl (made spots : List Location) (t : FileTree) : Grown made spots t t :=
  ⟨rfl, fun _ h => h, fun m _ => .refl made t m⟩

theorem Grown.trans (h : Grown made spots t t') (h' : Grown made spots t' t'') :
    Grown made spots t t'' :=
  ⟨h'.home.trans h.home, fun m hm => h'.directories m (h.directories m hm),
    fun m hm => (h.others m hm).trans (h'.others m hm)⟩

theorem Grown.mono (h : Grown made spots t t') (hspots : spots ⊆ spots') : Grown made spots' t t' :=
  ⟨h.home, h.directories, fun m hm => h.others m fun hs => hm (hspots hs)⟩

/-- A new directory is no file. -/
theorem Grown.textAt?_eq (h : Grown made spots t t') (hm : m ∉ spots) : t'.textAt? m = t.textAt? m := by
  unfold textAt?
  rcases h.others m hm with h | ⟨hnone, hdir, -⟩
  · rw [h]
  · rw [hnone, hdir]

theorem Grown.place_eq (h : Grown made spots t t') (path : Text) : t'.place path = t.place path :=
  place_congr h.home path

/-- **A file stays where it is found.** -/
theorem Grown.fileText?_eq (h : Grown made spots t t') (hm : t.place path ∉ spots)
    (hfile : t.fileText? path = some content) : t'.fileText? path = some content := by
  obtain ⟨hl, hpath, htext⟩ := fileText?_eq_some.1 hfile
  rw [fileText?_eq_some, h.place_eq, h.textAt?_eq hm]
  exact ⟨locate_of_directories h.home h.directories hl, hpath, htext⟩

/-! ## Writing one file -/

/-- Where a file is renamed to, there is a way. -/
theorem locate_of_rename {source dest : Text} (h : t.rename source dest = .ok t') :
    t.locate dest = .ok (t.place dest) := by
  simp only [rename, bind, Except.bind] at h
  split at h
  · cases h
  · split at h
    · cases h
    · next m hm =>
      rw [← locate_eq_place hm]
      exact hm

theorem directory_of_withParent (path : Text) (hm : t.at? m = some .directory) :
    (t.withParent path).2.at? m = some .directory := by
  rw [(kept_withParent t path m).at?_eq]
  · exact hm
  · rw [hm]
    exact nofun

theorem home_of_rename {source dest : Text} (h : t.rename source dest = .ok t') : t'.home = t.home := by
  obtain ⟨-, node, -, rfl⟩ := rename_eq_ok h
  rfl

theorem directory_of_rename {source dest : Text} (h : t.rename source dest = .ok t')
    (hsource : t.directoryAt (t.place source) = false) (hm : t.at? m = some .directory) :
    t'.at? m = some .directory := by
  obtain ⟨hfree, node, -, rfl⟩ := rename_eq_ok h
  rw [at?_put _ _ m (ne_root_of_not_directory hfree), if_neg (ne_of_directoryAt hfree hm),
    at?_erase t m (ne_root_of_not_directory hsource), if_neg (ne_of_directoryAt hsource hm)]
  exact hm

/-- What has been created is no directory. -/
theorem directoryAt_of_create (h : t.create path content = .ok t') :
    t'.directoryAt (t'.place path) = false := by
  obtain ⟨hfree, x, rfl⟩ := create_eq_ok h
  rw [place_congr (put_home ..)]
  simp [directoryAt, at?_put t _ _ (ne_root_of_not_directory hfree)]

/-- **Writing a file leaves every directory.** -/
theorem directory_of_writeFileOn (storage : Storage) (path content : Text) (hm : t.at? m = some .directory) :
    (t.writeFileOn storage path content).2.at? m = some .directory := by
  have hparent := directory_of_withParent path hm
  -- what has been created and is removed again was no directory
  have hremoved : ∀ {u v : FileTree} {part : Text}, u.create (temporaryName path) part = .ok v →
      u.at? m = some .directory → (v.removed (temporaryName path)).at? m = some .directory := by
    intro u v part hcreate hu
    have hv := directory_of_create hcreate hu
    rw [removed_at? (ne_of_directoryAt (directoryAt_of_create hcreate) hv)]
    exact hv
  have hcourse := writeFileOn_course storage t path content
  generalize t.writeFileOn storage path content = r at hcourse ⊢
  cases hcourse with
  | unmade parent => rw [parent] at hparent; exact hparent
  | unopened parent create => rw [parent] at hparent; exact hparent
  | unwritten parent create => rw [parent] at hparent; exact hremoved create hparent
  | unnamed parent create => rw [parent] at hparent; exact hremoved create hparent
  | done parent create rename =>
    rw [parent] at hparent
    exact directory_of_rename rename (directoryAt_of_create create) (directory_of_create create hparent)

/-- **Writing a file changes what is at its own location and at that of its temporary name.** -/
theorem grown_writeFileOn (storage : Storage) (t : FileTree) (path content : Text) :
    Grown (t.way (parent path)) [t.place path, t.place (temporaryName path)] t
      (t.writeFileOn storage path content).2 := by
  refine ⟨writeFileOn_home storage t path content, fun m => directory_of_writeFileOn storage path content, ?_⟩
  intro m hm
  simp only [List.mem_cons, List.not_mem_nil, or_false, not_or] at hm
  exact kept_writeFileOn storage content hm.1 hm.2

/-- A file that cannot be written stays. -/
theorem grown_of_writeFileOn_error {storage : Storage} {e : WriteError}
    (h : t.writeFileOn storage path content = (.error e, t')) :
    Grown (t.way (parent path)) [t.place (temporaryName path)] t t' := by
  have hgrown := grown_writeFileOn storage t path content
  rw [h] at hgrown
  exact ⟨hgrown.home, hgrown.directories, fun m hm => kept_writeFileOn_of_error h (by simpa using hm)⟩

/-- What a file can be renamed to is not a directory by its name. -/
theorem not_mustBeDirectory_of_rename {source dest : Text} (h : t.rename source dest = .ok t') :
    mustBeDirectory dest = false := by
  simp only [rename, bind, Except.bind] at h
  split at h
  · cases h
  · split at h
    · cases h
    · split at h
      · cases h
      · next hname =>
        split at h
        · cases h
        · split at h
          · cases h
          · next hempty =>
            simp only [Bool.or_eq_true, decide_eq_true_eq, not_or] at hname
            simp [mustBeDirectory, hname.1, hempty]

/-- **A file that is written is found.** -/
theorem fileText?_of_writeFileOn {storage : Storage} (h : t.writeFileOn storage path content = (.ok (), t')) :
    t'.fileText? path = some content := by
  obtain ⟨-, x, hfile⟩ := at?_of_writeFileOn_ok h
  have hhome : t'.home = t.home := by
    rw [← writeFileOn_home storage t path content, h]
  have hplace : t'.place path = t.place path := place_congr hhome path
  have hcourse := course_of_eq h
  cases hcourse with
  | @done u v w parent create rename =>
    have hlocate : t'.locate path = .ok (v.place path) :=
      locate_of_directories (home_of_rename rename)
        (fun m => directory_of_rename rename (directoryAt_of_create create)) (locate_of_rename rename)
    refine fileText?_eq_some.2 ⟨?_, not_mustBeDirectory_of_rename rename, ?_⟩
    · rw [hlocate, place_congr (home_of_rename rename)]
    · rw [hplace, textAt?, hfile]

theorem fileText?_of_writeFile (h : t.writeFile path content = (.ok (), t')) : t'.fileText? path = some content :=
  fileText?_of_writeFileOn h

/-! ## A file that cannot be written -/

/-- What a failure leaves of the file of a path: at its place all is as before, but for a directory that may have been
made there on the way, and a file that was found is found with its text. -/
structure Untouched (path : Text) (t t' : FileTree) : Prop where
  home : t'.home = t.home
  place : Kept (t.way (parent path)) t t' (t.place path)
  found : ∀ {content}, t.fileText? path = some content → t'.fileText? path = some content

theorem Untouched.refl (path : Text) (t : FileTree) : Untouched path t t := ⟨rfl, .refl .., id⟩

theorem locate_congr {path' : Text} (h : visible path' = visible path) (t : FileTree) :
    t.locate path' = t.locate path := by
  simp only [locate, h]

/-- What has been created can have another name of the same place. -/
theorem rename_of_create {path' : Text} (hvisible : visible path' = visible path)
    (h : t.create path content = .ok t') : ∃ u, t'.rename path path' = .ok u := by
  have hlocate := locate_of_create h
  have hname := not_mustBeDirectory_of_create h
  obtain ⟨hfree, x, rfl⟩ := create_eq_ok h
  have hplace := ne_root_of_not_directory hfree
  have hhere : (t.put (t.place path) (.file content x)).at? (t.place path) = some (.file content x) := by
    rw [at?_put _ _ _ hplace, if_pos rfl]
  simp only [mustBeDirectory, Bool.or_eq_false_iff, decide_eq_false_iff_not] at hname
  obtain ⟨⟨hnil, hdot⟩, hdots⟩ := hname
  simp [rename, bind, Except.bind, locate_congr hvisible, hlocate, hvisible, hnil, hdot, hdots, hplace, hhere,
    directoryAt]

/-- **A file that cannot be written is as it was**, unless a NUL hides that the temporary file is another one and the
disk refuses what is written to it. -/
theorem untouched_of_writeFileOn_error {storage : Storage} {e : WriteError}
    (h : t.writeFileOn storage path content = (.error e, t'))
    (hnul : '\x00' ∈ path → e ≠ .cannotWrite (temporaryName path)) : Untouched path t t' := by
  have hgrown := grown_of_writeFileOn_error h
  have hplace : Kept (t.way (parent path)) t t' (t.place path) := by
    by_cases hpath : '\x00' ∈ path
    · have hparent := kept_withParent t path (t.place path)
      have hcourse := course_of_eq h
      cases hcourse with
      | unmade parent => rw [parent] at hparent; exact hparent
      | unopened parent create => rw [parent] at hparent; exact hparent
      | unwritten parent create => exact absurd rfl (hnul hpath)
      | unnamed parent create rename =>
        -- the temporary file is the file itself, so it has its name already
        have hvisible : visible (temporaryName path) = visible path := visible_append_of_nul hpath _
        obtain ⟨w, hw⟩ := rename_of_create hvisible.symm create
        rw [hw] at rename
        cases rename
    · exact kept_writeFileOn_of_error h (place_temporaryName_ne hpath t)
  refine ⟨hgrown.home, hplace, ?_⟩
  intro c hfile
  obtain ⟨hl, hpath, htext⟩ := fileText?_eq_some.1 hfile
  have hat : t'.at? (t.place path) = t.at? (t.place path) := by
    apply hplace.at?_eq
    intro hnone
    simp [textAt?, hnone] at htext
  rw [fileText?_eq_some, hgrown.place_eq, textAt?, hat]
  exact ⟨locate_of_directories hgrown.home hgrown.directories hl, hpath, htext⟩

/-- On a disk that has room for it a file that cannot be written is as it was. -/
theorem untouched_of_writeFile_error {e : WriteError} (h : t.writeFile path content = (.error e, t')) :
    Untouched path t t' := by
  apply untouched_of_writeFileOn_error h
  have hcourse := course_of_eq h
  cases hcourse <;> exact fun _ => nofun

/-! ## Files beside each other -/

theorem temporaryName_join (hn : IsName n) (p : Text) :
    temporaryName (join p n) = join p (temporaryName n) :=
  (hn.join_append _).symm

theorem isName_temporaryName (hn : IsName n) : IsName (temporaryName n) :=
  isName_of_temporary hn.slash hn.nul

theorem start_join (hn : IsName n) (t : FileTree) (p : Text) :
    t.start (visible (join p n)) = t.start (visible p) := by
  simp only [start, isAbsolute_visible, isAbsolute_join hn]

/-- **A name in a directory leads to a location in the place of the directory.** -/
theorem place_join (hn : IsName n) (hp : '\x00' ∉ p) (t : FileTree) :
    t.place (join p n) = t.place p ++ [n] := by
  unfold place
  rw [start_join hn, visible_join hn hp, visible_of_no_nul hp, components_join hn, List.foldl_append]
  simp [follow, hn.dots]

theorem place_join_of_nul (hn : IsName n) (hp : '\x00' ∈ p) (t : FileTree) :
    t.place (join p n) = t.place p := by
  unfold place
  rw [visible_join_of_nul hn hp]

/-- What is in a directory lies below its place, or a NUL hides it. -/
theorem place_prefix_join (hn : IsName n) (t : FileTree) (p : Text) : t.place p <+: t.place (join p n) := by
  by_cases hp : '\x00' ∈ p
  · have hsame := place_join_of_nul hn hp t
    exact ⟨[], by rw [List.append_nil, hsame]⟩
  · rw [place_join hn hp]
    exact List.prefix_append ..

/-- The way to the directory of a name is the way to the directory. -/
theorem way_parent_join (hn : IsName n) (t : FileTree) (p : Text) :
    t.way (parent (join p n)) = t.way p := by
  by_cases hp : p = []
  · subst hp
    rw [join_nil_left, parent_name hn]
  · obtain ⟨-, hcomponents, habsolute⟩ := parent_join hp hn
    unfold way start
    rw [hcomponents, isAbsolute_visible, isAbsolute_visible, habsolute]

theorem mustBeDirectory_join (hn : IsName n) (hp : '\x00' ∉ p) : mustBeDirectory (join p n) = false := by
  unfold mustBeDirectory
  rw [visible_join hn hp, fileName_join hn]
  simp [hn.nonempty, hn.dot, hn.dots]

/-- The directories that are made are there. -/
theorem directory_of_makeAlong {made : Bool} {cs : List Text} (h : t.makeAlong made l cs = (.ok (), t')) :
    ∀ m ∈ trail l cs, t'.at? m = some .directory := by
  induction cs generalizing t made l with
  | nil => exact nofun
  | cons c cs ih =>
    -- the first step is a directory before the others are made, and stays one
    have hfirst : ∀ {u : FileTree} {b : Bool}, u.makeAlong b (follow l c) cs = (.ok (), t') →
        u.at? (follow l c) = some .directory → ∀ m ∈ trail l (c :: cs), t'.at? m = some .directory := by
      intro u b hu hdir m hm
      rcases List.mem_cons.1 hm with rfl | hm
      · have hkept := (kept_makeAlong u b (follow l c) cs (follow l c)).at?_eq (by simp [hdir])
        rw [hu] at hkept
        exact hkept.trans hdir
      · exact ih hu m hm
    unfold makeAlong at h
    split at h
    · next hdir => exact hfirst h hdir
    · cases h
    · next hnone =>
      split at h
      · cases h
      · refine hfirst h ?_
        rw [at?_put _ _ _ (ne_root_of_none hnone), if_pos rfl]

/-- Where directories could be made, the way is one of directories. -/
theorem directory_of_makeDirectories (h : t.makeDirectories path = (.ok (), t')) :
    ∀ m ∈ t.way path, t'.at? m = some .directory := by
  simp only [makeDirectories] at h
  split at h
  · cases h
  · split at h
    · cases h
    · exact directory_of_makeAlong h

/-- Where the directory of a name could be made, the way to it is one of directories. -/
theorem directory_of_withParent_join (hn : IsName n) (h : t.withParent (join p n) = (.ok (), t')) :
    ∀ m ∈ t.way p, t'.at? m = some .directory := by
  unfold withParent at h
  split at h
  · next hempty =>
    rw [← way_parent_join hn t p, List.isEmpty_iff.1 hempty]
    exact nofun
  · rw [← way_parent_join hn t p]
    exact directory_of_makeDirectories h

/-- A NUL in the path of a directory hides the names of its files: none can be created. -/
theorem create_of_nul (hn : IsName n) (hp : '\x00' ∈ p) (h : ∀ m ∈ t.way p, t.at? m = some .directory)
    (content : Text) : ∃ e, t.create (join p n) content = .error e := by
  cases hc : t.create (join p n) content with
  | error e => exact ⟨e, rfl⟩
  | ok v =>
    -- the path leads to the directory itself
    exfalso
    obtain ⟨hfree, -⟩ := create_eq_ok hc
    have hname := not_mustBeDirectory_of_create hc
    rw [place_join_of_nul hn hp] at hfree
    unfold mustBeDirectory at hname
    rw [visible_join_of_nul hn hp] at hname
    cases hcomponents : components (visible p) with
    | nil =>
      have hdir := mustBeDirectory_of_no_components hcomponents
      unfold mustBeDirectory at hdir
      rw [hname] at hdir
      cases hdir
    | cons c cs =>
      have hmem : t.place p ∈ t.way p := by
        unfold place way
        rw [hcomponents]
        exact foldl_follow_mem (follow (t.start (visible p)) c) cs
      simp [directoryAt, h _ hmem] at hfree

/-- The location of a file in a directory, and that of its temporary name. -/
def spotsOf (t : FileTree) (directory name : Text) : List Location :=
  [t.place directory ++ [name], t.place directory ++ [temporaryName name]]

theorem locate_join (hn : IsName n) (hp : '\x00' ∉ p) (t : FileTree) :
    t.locate (join p n) =
      if longestPath < (join p n).length then .error .nameTooLong
      else t.walk (t.start (visible p)) (components (visible p)) >>= fun l => t.walk l [n] := by
  have hne : (join p n).isEmpty = false := by
    cases hjoin : join p n with
    | nil =>
      have hname := fileName_join (p := p) hn
      rw [hjoin] at hname
      exact absurd hname.symm hn.nonempty
    | cons c r => rfl
  have hstart := start_join hn t p
  rw [visible_join hn hp] at hstart
  simp only [locate]
  rw [visible_join hn hp, hne, components_join hn, walk_append, hstart, visible_of_no_nul hp]
  rfl

/-- Where one name in a directory leads to a location, each name does that is not too long. -/
theorem locate_beside {n' : Text} (hn : IsName n) (hn' : IsName n') (hp : '\x00' ∉ p)
    (h : t.locate (join p n) = .ok l) :
    t.locate (join p n') =
      if longestPath < (join p n').length ∨ longestName < n'.length then .error .nameTooLong
      else .ok (t.place p ++ [n']) := by
  rw [locate_join hn hp] at h
  split at h
  · cases h
  · cases hw : t.walk (t.start (visible p)) (components (visible p)) with
    | error e =>
      rw [hw] at h
      cases h
    | ok d =>
      have hplace : d = t.place p := walk_eq_foldl hw
      have hdir : t.at? d = some .directory := by
        rw [hw] at h
        simp only [bind, Except.bind, walk] at h
        split at h
        · cases h
        · cases h
        · next hdir => exact hdir
      rw [locate_join hn' hp, hw, hplace]
      rw [hplace] at hdir
      simp only [bind, Except.bind, walk, hdir, follow, if_neg hn'.dots]
      by_cases hlong : longestPath < (join p n').length
      · simp [hlong]
      · by_cases hname : longestName < n'.length
        · simp [hname]
        · simp [hlong, hname]

theorem isDirectory_iff :
    t.isDirectory path = true ↔
      t.locate path = .ok (t.place path) ∧ t.at? (t.place path) = some .directory := by
  unfold isDirectory node?
  cases hl : t.locate path with
  | error e => simp
  | ok l =>
    obtain rfl := locate_eq_place hl
    cases hn : t.at? (t.place path) with
    | none => simp [hn]
    | some node =>
      cases node with
      | directory => simp [hn]
      | file c x => by_cases hd : mustBeDirectory path <;> simp [hn, hd]

theorem Grown.isDirectory (h : Grown made spots t t') (hd : t.isDirectory path = true) :
    t'.isDirectory path = true := by
  obtain ⟨hl, hdir⟩ := isDirectory_iff.1 hd
  rw [isDirectory_iff, h.place_eq]
  exact ⟨locate_of_directories h.home h.directories hl, h.directories _ hdir⟩

theorem walk_of_locate (h : t.locate path = .ok l) :
    t.walk (t.start (visible path)) (components (visible path)) = .ok l := by
  simp only [locate] at h
  split at h
  · cases h
  · split at h
    · cases h
    · exact h

/-- What is found in a directory is what is at the location of the name, if the name and the path are not too
long. -/
theorem fileText?_join (hd : t.isDirectory p = true) (hn : IsName n) (hp : '\x00' ∉ p) :
    t.fileText? (join p n) =
      if longestPath < (join p n).length ∨ longestName < n.length then none
      else t.textAt? (t.place p ++ [n]) := by
  obtain ⟨hl, hdir⟩ := isDirectory_iff.1 hd
  have hlocate := locate_join hn hp t
  have hstep : t.walk (t.place p) [n] =
      if longestName < n.length then .error .nameTooLong else .ok (t.place p ++ [n]) := by
    unfold walk
    rw [hdir]
    simp only [walk, follow, if_neg hn.dots]
  rw [walk_of_locate hl] at hlocate
  unfold fileText? node?
  rw [hlocate]
  by_cases hlong : longestPath < (join p n).length
  · simp [hlong]
  · by_cases hname : longestName < n.length
    · simp [hlong, hname, hstep, bind, Except.bind]
    · simp only [hlong, hname, hstep, bind, Except.bind, if_false, or_self, mustBeDirectory_join hn hp]
      unfold textAt?
      cases t.at? (t.place p ++ [n]) with
      | none => rfl
      | some node => cases node <;> rfl

/-- Where a NUL hides the name, no file is found. -/
theorem fileText?_join_of_nul (hd : t.isDirectory p = true) (hn : IsName n) (hp : '\x00' ∈ p) :
    t.fileText? (join p n) = none := by
  obtain ⟨hl, hdir⟩ := isDirectory_iff.1 hd
  have hlocate : t.locate (join p n) = .ok (t.place p) := by
    rw [← hl]
    simp only [locate, visible_join_of_nul hn hp]
  unfold fileText? node?
  rw [hlocate]
  dsimp only
  rw [hdir]

/-- **The files of a directory stay as they are in a tree that has grown elsewhere.** -/
theorem Grown.fileText?_join (h : Grown made spots t t') (hd : t.isDirectory p = true) (hn : IsName n)
    (hspots : t.place p ++ [n] ∉ spots) : t'.fileText? (join p n) = t.fileText? (join p n) := by
  by_cases hp : '\x00' ∈ p
  · rw [fileText?_join_of_nul hd hn hp, fileText?_join_of_nul (h.isDirectory hd) hn hp]
  · rw [FileTree.fileText?_join hd hn hp, FileTree.fileText?_join (h.isDirectory hd) hn hp, h.place_eq,
      h.textAt?_eq hspots]

end Flatsheet.FileTree
