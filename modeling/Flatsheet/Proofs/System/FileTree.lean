import Flatsheet.Proofs.System.Path
import Flatsheet.System.FileTree

/-!
# `Proofs.System.FileTree` — what the operations on files change

Every operation works on the location that its path leads to. That location depends on the tree only
through its home (`locate_eq_place`), so one can say beforehand which locations an operation can touch:

* `create`, `rename` and `remove` touch the locations of their paths and nothing else;
* `makeDirectories` only puts directories where there was nothing, on the way along its path;
* `writeFileOn`, on a disk that may refuse, therefore touches the location of the file and that of its temporary
  name, apart from directories that it makes on the way (`kept_writeFileOn`).

What is at a location at all stays there unless it is touched (`Kept`).
-/

namespace Flatsheet.FileTree

open Text

variable {t t' : FileTree} {path : Text} {l m : Location}

/-! ## Where a path leads -/

/-- **Where a path leads**, whether or not the directories on the way exist. -/
def place (t : FileTree) (path : Text) : Location :=
  (Path.components (Path.visible path)).foldl follow (t.start (Path.visible path))

/-- The locations passed when components are followed from a location. -/
def trail (l : Location) : List Text → List Location
  | [] => []
  | c :: cs => follow l c :: trail (follow l c) cs

/-- The locations passed on the way along a path. -/
def way (t : FileTree) (path : Text) : List Location :=
  trail (t.start (Path.visible path)) (Path.components (Path.visible path))

theorem start_congr (h : t'.home = t.home) (path : Text) : t'.start path = t.start path := by
  unfold start
  rw [h]

theorem place_congr (h : t'.home = t.home) (path : Text) : t'.place path = t.place path := by
  simp only [place, start, h]

theorem way_congr (h : t'.home = t.home) (path : Text) : t'.way path = t.way path := by
  simp only [way, start, h]

theorem walk_eq_foldl {cs : List Text} (h : t.walk l cs = .ok m) : m = cs.foldl follow l := by
  induction cs generalizing l with
  | nil => cases h; rfl
  | cons c cs ih =>
    rw [walk] at h
    split at h
    · cases h
    · cases h
    · split at h
      · cases h
      · exact ih h

/-- **A path that leads somewhere leads to its place.** -/
theorem locate_eq_place (h : t.locate path = .ok l) : l = t.place path := by
  simp only [locate] at h
  split at h
  · cases h
  · split at h
    · cases h
    · exact walk_eq_foldl h

/-- A way leads on where all directories of another tree are. -/
theorem walk_of_directories (hd : ∀ m, t.at? m = some .directory → t'.at? m = some .directory)
    {cs : List Text} (h : t.walk l cs = .ok m) : t'.walk l cs = .ok m := by
  induction cs generalizing l with
  | nil => exact h
  | cons c cs ih =>
    unfold walk at h ⊢
    split at h
    · cases h
    · cases h
    · next hl =>
      rw [hd l hl]
      dsimp only
      split at h
      · cases h
      · next hc =>
        rw [if_neg hc]
        exact ih h

theorem locate_of_directories (hhome : t'.home = t.home)
    (hd : ∀ m, t.at? m = some .directory → t'.at? m = some .directory) (h : t.locate path = .ok l) :
    t'.locate path = .ok l := by
  simp only [locate, start, hhome] at h ⊢
  split at h
  · cases h
  · next hvisible =>
    rw [if_neg hvisible]
    split at h
    · cases h
    · next hlong =>
      rw [if_neg hlong]
      exact walk_of_directories hd h

theorem walk_append (t : FileTree) (l : Location) (cs ds : List Text) :
    t.walk l (cs ++ ds) = t.walk l cs >>= fun m => t.walk m ds := by
  induction cs generalizing l with
  | nil => rfl
  | cons c cs ih =>
    rw [List.cons_append, walk, walk]
    split
    · rfl
    · rfl
    · split
      · rfl
      · exact ih (follow l c)

theorem foldl_follow_mem (l : Location) (cs : List Text) : cs.foldl follow l ∈ l :: trail l cs := by
  induction cs generalizing l with
  | nil => exact List.mem_singleton_self l
  | cons c cs ih => exact List.mem_cons_of_mem l (ih (follow l c))

theorem walk_congr {cs : List Text} (h : ∀ m ∈ l :: trail l cs, t'.at? m = t.at? m) :
    t'.walk l cs = t.walk l cs := by
  induction cs generalizing l with
  | nil => rfl
  | cons c cs ih =>
    have hstep := ih (l := follow l c) fun m hm => h m (List.mem_cons_of_mem l hm)
    rw [walk, walk, h l List.mem_cons_self, hstep]

/-- **What a path leads to is a matter of what is along it.** -/
theorem node?_congr (hhome : t'.home = t.home)
    (h : ∀ m ∈ t.start (Path.visible path) :: t.way path, t'.at? m = t.at? m) :
    t'.node? path = t.node? path := by
  have hstart : t'.start (Path.visible path) = t.start (Path.visible path) := by
    rw [start, hhome, start]
  have hlocate : t'.locate path = t.locate path := by
    simp only [locate]
    rw [hstart, walk_congr h]
  rw [node?, node?, hlocate]
  split
  · rfl
  · next l hl =>
    have hmem : l ∈ t.start (Path.visible path) :: t.way path := by
      rw [locate_eq_place hl]
      exact foldl_follow_mem ..
    rw [h l hmem]

@[simp] theorem at?_root (t : FileTree) : t.at? [] = some .directory := rfl

theorem ne_root_of_not_directory (h : t.directoryAt l = false) : l ≠ [] := by
  intro hl
  simp [directoryAt, hl] at h

theorem ne_root_of_none (h : t.at? l = none) : l ≠ [] := by
  rintro rfl
  cases h

/-! ## The home stays -/

@[simp] theorem put_home (t : FileTree) (l : Location) (n : Node) : (t.put l n).home = t.home := rfl

@[simp] theorem erase_home (t : FileTree) (l : Location) : (t.erase l).home = t.home := rfl

@[simp] theorem makeAlong_home (t : FileTree) (made : Bool) (l : Location) (cs : List Text) :
    (t.makeAlong made l cs).2.home = t.home := by
  induction cs generalizing t made l with
  | nil => rfl
  | cons c cs ih =>
    rw [makeAlong]
    split
    · exact ih ..
    · rfl
    · split
      · rfl
      · rw [ih, put_home]

@[simp] theorem makeDirectories_home (t : FileTree) (path : Text) :
    (t.makeDirectories path).2.home = t.home := by
  simp only [makeDirectories]
  split
  · rfl
  · split
    · rfl
    · exact makeAlong_home ..

@[simp] theorem withParent_home (t : FileTree) (path : Text) :
    (t.withParent path).2.home = t.home := by
  rw [withParent]
  split
  · rfl
  · exact makeDirectories_home ..

/-! ## The single changes -/

/-- A file is created at the place of its path, where there is no directory. -/
theorem create_eq_ok {content : Text} (h : t.create path content = .ok t') :
    t.directoryAt (t.place path) = false ∧
      ∃ x, t' = t.put (t.place path) (.file content x) := by
  simp only [create, bind, Except.bind] at h
  split at h
  · cases h
  · next l hl =>
    obtain rfl := locate_eq_place hl
    split at h
    · cases h
    · next hd =>
      simp only [Bool.or_eq_true, not_or, Bool.not_eq_true] at hd
      exact ⟨hd.2, _, (Except.ok.inj h).symm⟩

/-- A file is renamed by taking it from the place of the one path to that of the other, where there is no
directory. -/
theorem rename_eq_ok {source dest : Text} (h : t.rename source dest = .ok t') :
    t.directoryAt (t.place dest) = false ∧
      ∃ n, t.at? (t.place source) = some n ∧
        t' = (t.erase (t.place source)).put (t.place dest) n := by
  simp only [rename, bind, Except.bind] at h
  split at h
  · cases h
  · next l hl =>
    obtain rfl := locate_eq_place hl
    split at h
    · cases h
    · next m hm =>
      obtain rfl := locate_eq_place hm
      split at h
      · cases h
      · split at h
        · cases h
        · next n hn =>
          split at h
          · cases h
          · split at h
            · cases h
            · next hd => exact ⟨by simpa using hd, n, hn, (Except.ok.inj h).symm⟩

/-- Removing takes away what is at the place of the path, or there is nothing to remove. -/
theorem remove_eq_ok (h : t.remove path = .ok t') :
    t' = t ∧ t.node? path = none ∨ t' = t.erase (t.place path) ∧ t.place path ≠ [] := by
  rw [remove] at h
  split at h
  · next hl => exact .inl ⟨(Except.ok.inj h).symm, by simp [node?, hl]⟩
  · cases h
  · next l hl =>
    have hn : t.at? l = none → t.node? path = none := fun ha => by simp [node?, hl, ha]
    obtain rfl := locate_eq_place hl
    split at h
    · next ha => exact .inl ⟨(Except.ok.inj h).symm, hn ha⟩
    · next ha =>
      split at h
      · cases h
      · refine .inr ⟨(Except.ok.inj h).symm, ?_⟩
        intro hp
        simp [hp] at ha
    · split at h
      · cases h
      · next hp =>
        split at h
        · exact .inr ⟨(Except.ok.inj h).symm, by simpa using hp⟩
        · cases h

@[simp] theorem removed_home (t : FileTree) (path : Text) : (t.removed path).home = t.home := by
  rw [removed]
  cases h : t.remove path with
  | error e => rfl
  | ok t' => rcases remove_eq_ok h with ⟨rfl, -⟩ | ⟨rfl, -⟩ <;> rfl

/-- Removing touches nothing but the place of the path. -/
theorem remove_at? (h : t.remove path = .ok t') (hm : m ≠ t.place path) : t'.at? m = t.at? m := by
  rcases remove_eq_ok h with ⟨rfl, -⟩ | ⟨rfl, hp⟩
  · rfl
  · rw [at?_erase t m hp, if_neg hm]

theorem removed_at? (hm : m ≠ t.place path) : (t.removed path).at? m = t.at? m := by
  rw [removed]
  cases h : t.remove path with
  | error e => rfl
  | ok t' => exact remove_at? h hm

/-! ## Making directories -/

/-- **At a location all is as before, or there is a new directory**, which is one of the given locations. -/
def Kept (made : List Location) (t t' : FileTree) (m : Location) : Prop :=
  t'.at? m = t.at? m ∨ t.at? m = none ∧ t'.at? m = some .directory ∧ m ∈ made

theorem Kept.refl (made : List Location) (t : FileTree) (m : Location) : Kept made t t m := .inl rfl

/-- What is there stays there. -/
theorem Kept.at?_eq {made : List Location} (h : Kept made t t' m) (hm : t.at? m ≠ none) :
    t'.at? m = t.at? m := by
  rcases h with h | ⟨hn, -⟩
  · exact h
  · exact absurd hn hm

theorem Kept.trans_eq {made : List Location} {t'' : FileTree} (h : Kept made t t' m)
    (h' : t''.at? m = t'.at? m) : Kept made t t'' m := by
  rcases h with h | ⟨hn, hd, hm⟩
  · exact .inl (h'.trans h)
  · exact .inr ⟨hn, h'.trans hd, hm⟩

theorem kept_makeAlong (t : FileTree) (made : Bool) (l : Location) (cs : List Text) (m : Location) :
    Kept (trail l cs) t (t.makeAlong made l cs).2 m := by
  induction cs generalizing t made l with
  | nil => exact .refl ..
  | cons c cs ih =>
    have tail : ∀ {u : FileTree} {n : Bool}, Kept (trail (follow l c) cs) u
        (u.makeAlong n (follow l c) cs).2 m →
        Kept (trail l (c :: cs)) u (u.makeAlong n (follow l c) cs).2 m := fun h =>
      h.imp id fun ⟨hn, hd, hm⟩ => ⟨hn, hd, List.mem_cons_of_mem _ hm⟩
    rw [makeAlong]
    split
    · exact tail (ih ..)
    · exact .refl ..
    · next hn =>
      split
      · exact .refl ..
      · -- the directory just made is on the way itself; all else is as for the rest of the way
        have hput := at?_put t .directory m (ne_root_of_none hn)
        rcases tail (ih (t.put (follow l c) .directory) true (follow l c)) with h | ⟨hm, hd, ht⟩
        · by_cases hml : m = follow l c
          · rw [hput, if_pos hml] at h
            exact .inr ⟨hml ▸ hn, h, hml ▸ List.mem_cons_self⟩
          · rw [hput, if_neg hml] at h
            exact .inl h
        · by_cases hml : m = follow l c
          · rw [hput, if_pos hml] at hm
            cases hm
          · rw [hput, if_neg hml] at hm
            exact .inr ⟨hm, hd, ht⟩

theorem kept_makeDirectories (t : FileTree) (path : Text) (m : Location) :
    Kept (t.way path) t (t.makeDirectories path).2 m := by
  simp only [makeDirectories]
  split
  · exact .refl ..
  · split
    · exact .refl ..
    · exact kept_makeAlong ..

theorem kept_withParent (t : FileTree) (path : Text) (m : Location) :
    Kept (t.way (Path.parent path)) t (t.withParent path).2 m := by
  rw [withParent]
  split
  · exact .refl ..
  · exact kept_makeDirectories ..

/-! ## Writing whole files -/

theorem ne_of_directoryAt (hl : t.directoryAt l = false) (hm : t.at? m = some .directory) : m ≠ l := by
  rintro rfl
  simp [directoryAt, hm] at hl

theorem directory_of_create {content : Text} (h : t.create path content = .ok t') (hm : t.at? m = some .directory) :
    t'.at? m = some .directory := by
  obtain ⟨hfree, x, rfl⟩ := create_eq_ok h
  rw [at?_put t _ m (ne_root_of_not_directory hfree), if_neg (ne_of_directoryAt hfree hm)]
  exact hm

theorem not_mustBeDirectory_of_create {content : Text} (h : t.create path content = .ok t') :
    Path.mustBeDirectory path = false := by
  simp only [create, bind, Except.bind] at h
  split at h
  · cases h
  · split at h
    · cases h
    · next hd =>
      simp only [Bool.or_eq_true, not_or, Bool.not_eq_true] at hd
      exact hd.1

/-- What has been created is found. -/
theorem locate_of_create {content : Text} (h : t.create path content = .ok t') : t'.locate path = .ok (t.place path) := by
  have hlocate : t.locate path = .ok (t.place path) := by
    simp only [create, bind, Except.bind] at h
    split at h
    · cases h
    · next l hl => rw [hl, locate_eq_place hl]
  refine locate_of_directories ?_ (fun m => directory_of_create h) hlocate
  obtain ⟨-, x, rfl⟩ := create_eq_ok h
  rfl

/-- **What has been created can be removed again**, and then nothing is left of it. -/
theorem removed_of_create {content : Text} (h : t.create path content = .ok t') :
    t'.removed path = t'.erase (t.place path) := by
  obtain ⟨hfree, x, hput⟩ := create_eq_ok h
  have hhere : t'.at? (t.place path) = some (.file content x) := by
    rw [hput, at?_put t _ _ (ne_root_of_not_directory hfree), if_pos rfl]
  have hremove : t'.remove path = .ok (t'.erase (t.place path)) := by
    simp [remove, locate_of_create h, hhere, not_mustBeDirectory_of_create h]
  rw [removed, hremove]
  rfl

/-- **The ways in which writing a file can go**: one for each step that can fail, and one to the end. -/
inductive WriteCourse (t : FileTree) (path content : Text) : Storage → Except WriteError Unit × FileTree → Prop
  | unmade {storage : Storage} {cause : FileError} {u : FileTree} (parent : t.withParent path = (.error cause, u)) :
      WriteCourse t path content storage (.error (.cannotMake (Path.parent path) cause), u)
  | unopened {storage : Storage} {cause : FileError} {u : FileTree} (parent : t.withParent path = (.ok (), u))
      (create : u.create (temporaryName path) (storage.arrived content) = .error cause) :
      WriteCourse t path content storage (.error (.cannotOpen (temporaryName path)), u)
  | unwritten {part : Text} {u v : FileTree} (parent : t.withParent path = (.ok (), u))
      (create : u.create (temporaryName path) part = .ok v) :
      WriteCourse t path content (.refused part)
        (.error (.cannotWrite (temporaryName path)), v.removed (temporaryName path))
  | unnamed {cause : FileError} {u v : FileTree} (parent : t.withParent path = (.ok (), u))
      (create : u.create (temporaryName path) content = .ok v)
      (rename : v.rename (temporaryName path) path = .error cause) :
      WriteCourse t path content .whole
        (.error (.cannotRename (temporaryName path) path cause), v.removed (temporaryName path))
  | done {u v w : FileTree} (parent : t.withParent path = (.ok (), u))
      (create : u.create (temporaryName path) content = .ok v)
      (rename : v.rename (temporaryName path) path = .ok w) :
      WriteCourse t path content .whole (.ok (), w)

theorem writeFileOn_course (storage : Storage) (t : FileTree) (path content : Text) :
    WriteCourse t path content storage (t.writeFileOn storage path content) := by
  simp only [writeFileOn]
  split
  · next hparent => exact .unmade hparent
  · next hparent =>
    split
    · next hcreate => exact .unopened hparent hcreate
    · next hcreate =>
      cases storage with
      | refused part => exact .unwritten hparent hcreate
      | whole =>
        dsimp only
        split
        · next hrename => exact .unnamed hparent hcreate hrename
        · next hrename => exact .done hparent hcreate hrename

/-- The course that leads to a result. -/
theorem course_of_eq {storage : Storage} {content : Text} {r : Except WriteError Unit × FileTree}
    (h : t.writeFileOn storage path content = r) : WriteCourse t path content storage r :=
  h ▸ writeFileOn_course storage t path content

/-- What writing a file does once its directory is there, as far as one can tell from outside. -/
inductive Written (u : FileTree) (path content : Text) : Except WriteError Unit × FileTree → Prop
  | failed {e : WriteError} {v : FileTree} (home : v.home = u.home)
      (others : ∀ m, m ≠ u.place (temporaryName path) → v.at? m = u.at? m)
      (temporary : v.at? (u.place (temporaryName path)) = u.at? (u.place (temporaryName path)) ∨
        v.at? (u.place (temporaryName path)) = none) :
      Written u path content (.error e, v)
  | done {v : FileTree} {x : Bool} (home : v.home = u.home)
      (free : u.at? (u.place path) ≠ some .directory)
      (here : v.at? (u.place path) = some (.file content x))
      (others : ∀ m, m ≠ u.place (temporaryName path) → m ≠ u.place path → v.at? m = u.at? m)
      (temporary : u.place (temporaryName path) ≠ u.place path → v.at? (u.place (temporaryName path)) = none) :
      Written u path content (.ok (), v)

/-- **What is under the temporary name when writing fails is removed.** -/
theorem written_removed {u v : FileTree} {part : Text} (hc : u.create (temporaryName path) part = .ok v)
    (content : Text) (e : WriteError) : Written u path content (.error e, v.removed (temporaryName path)) := by
  have hremoved := removed_of_create hc
  obtain ⟨hdir, x, rfl⟩ := create_eq_ok hc
  have htmp := ne_root_of_not_directory hdir
  rw [hremoved]
  refine .failed rfl (fun m hm => ?_) (.inr ?_)
  · rw [at?_erase _ m htmp, if_neg hm, at?_put u _ m htmp, if_neg hm]
  · rw [at?_erase _ _ htmp, if_pos rfl]

/-- **What has got its name is under it, and no longer under the temporary one.** -/
theorem written_of_rename {u v w : FileTree} {content : Text} (hc : u.create (temporaryName path) content = .ok v)
    (hr : v.rename (temporaryName path) path = .ok w) : Written u path content (.ok (), w) := by
  obtain ⟨hdir, x, rfl⟩ := create_eq_ok hc
  have htmp := ne_root_of_not_directory hdir
  have hput := fun m => at?_put u (.file content x) m htmp
  obtain ⟨hd, n, hn, rfl⟩ := rename_eq_ok hr
  simp only [place_congr (put_home ..)] at hd hn ⊢
  obtain rfl : .file content x = n := by simpa [hput] using hn
  have hne := ne_root_of_not_directory hd
  refine .done (x := x) rfl ?_ (by rw [at?_put _ _ _ hne, if_pos rfl]) (fun m hm hmp => ?_) fun hapart => ?_
  · intro hu
    -- a directory in the way would be there still, whether or not the temporary file is elsewhere
    by_cases he : u.place path = u.place (temporaryName path)
    · simp [directoryAt, ← he, hu] at hdir
    · simp [directoryAt, hput, he, hu] at hd
  · rw [at?_put _ _ m hne, if_neg hmp, at?_erase _ m htmp, if_neg hm, hput, if_neg hm]
  · rw [at?_put _ _ _ hne, if_neg hapart, at?_erase _ _ htmp, if_pos rfl]

/-- **Writing a file** is writing it into a tree that may have got directories on the way. -/
theorem writeFileOn_written (storage : Storage) (t : FileTree) (path content : Text) :
    ∃ u, u.home = t.home ∧ (∀ m, Kept (t.way (Path.parent path)) t u m) ∧
      Written u path content (t.writeFileOn storage path content) := by
  refine ⟨(t.withParent path).2, withParent_home t path, kept_withParent t path, ?_⟩
  have hcourse := writeFileOn_course storage t path content
  generalize t.writeFileOn storage path content = r at hcourse ⊢
  cases hcourse with
  | unmade parent => rw [parent]; exact .failed rfl (fun _ _ => rfl) (.inl rfl)
  | unopened parent => rw [parent]; exact .failed rfl (fun _ _ => rfl) (.inl rfl)
  | unwritten parent create => rw [parent]; exact written_removed create ..
  | unnamed parent create => rw [parent]; exact written_removed create ..
  | done parent create rename => rw [parent]; exact written_of_rename create rename

theorem writeFileOn_home (storage : Storage) (t : FileTree) (path content : Text) :
    (t.writeFileOn storage path content).2.home = t.home := by
  obtain ⟨u, hu, -, hw⟩ := writeFileOn_written storage t path content
  generalize t.writeFileOn storage path content = r at hw
  cases hw with
  | failed home => exact home.trans hu
  | done home => exact home.trans hu

/-- **Writing a file touches its own place and that of its temporary name**, apart from directories on the
way. -/
theorem kept_writeFileOn (storage : Storage) (content : Text) (hm : m ≠ t.place path)
    (htmp : m ≠ t.place (temporaryName path)) :
    Kept (t.way (Path.parent path)) t (t.writeFileOn storage path content).2 m := by
  obtain ⟨u, hu, hkept, hw⟩ := writeFileOn_written storage t path content
  generalize t.writeFileOn storage path content = r at hw
  rw [← place_congr hu] at hm htmp
  cases hw with
  | failed home others => exact (hkept m).trans_eq (others m htmp)
  | done home free here others => exact (hkept m).trans_eq (others m htmp hm)

/-- **A file that cannot be written is not touched.** -/
theorem kept_writeFileOn_of_error {storage : Storage} {content : Text} {e : WriteError}
    (h : t.writeFileOn storage path content = (.error e, t')) (htmp : m ≠ t.place (temporaryName path)) :
    Kept (t.way (Path.parent path)) t t' m := by
  obtain ⟨u, hu, hkept, hw⟩ := writeFileOn_written storage t path content
  rw [h] at hw
  rw [← place_congr hu] at htmp
  cases hw with
  | failed home others => exact (hkept m).trans_eq (others m htmp)

/-- **A file that is written has the content**, and there was no directory in its place. -/
theorem at?_of_writeFileOn_ok {storage : Storage} {content : Text}
    (h : t.writeFileOn storage path content = (.ok (), t')) :
    t.at? (t.place path) ≠ some .directory ∧
      ∃ x, t'.at? (t.place path) = some (.file content x) := by
  obtain ⟨u, hu, hkept, hw⟩ := writeFileOn_written storage t path content
  rw [h] at hw
  have hplace : u.place path = t.place path := place_congr hu path
  cases hw with
  | done home free here others =>
    rw [hplace] at free here
    refine ⟨fun hd => free ?_, _, here⟩
    rw [(hkept _).at?_eq (by simp [hd]), hd]

@[simp] theorem writeFile_home (t : FileTree) (path content : Text) :
    (t.writeFile path content).2.home = t.home :=
  writeFileOn_home .whole t path content

theorem kept_writeFile (content : Text) (hm : m ≠ t.place path)
    (htmp : m ≠ t.place (temporaryName path)) :
    Kept (t.way (Path.parent path)) t (t.writeFile path content).2 m :=
  kept_writeFileOn .whole content hm htmp

theorem kept_writeFile_of_error {content : Text} {e : WriteError}
    (h : t.writeFile path content = (.error e, t')) (htmp : m ≠ t.place (temporaryName path)) :
    Kept (t.way (Path.parent path)) t t' m :=
  kept_writeFileOn_of_error h htmp

theorem at?_of_writeFile_ok {content : Text} (h : t.writeFile path content = (.ok (), t')) :
    t.at? (t.place path) ≠ some .directory ∧ ∃ x, t'.at? (t.place path) = some (.file content x) :=
  at?_of_writeFileOn_ok h

/-! ## What is gone -/

/-- The first tree has nothing that the second one has not. -/
def Within (t' t : FileTree) : Prop := t'.home = t.home ∧ ∀ m n, t'.at? m = some n → t.at? m = some n

theorem Within.refl (t : FileTree) : Within t t := ⟨rfl, fun _ _ h => h⟩

theorem Within.trans {t'' : FileTree} (h' : Within t'' t') (h : Within t' t) : Within t'' t :=
  ⟨h'.1.trans h.1, fun m n hn => h.2 m n (h'.2 m n hn)⟩

theorem within_of_remove (h : t.remove path = .ok t') : Within t' t := by
  rcases remove_eq_ok h with ⟨rfl, -⟩ | ⟨rfl, hp⟩
  · exact .refl t'
  · refine ⟨rfl, fun m n hn => ?_⟩
    rw [at?_erase t m hp] at hn
    split at hn
    · cases hn
    · exact hn

theorem Within.locate (h : Within t' t) (hl : t'.locate path = .ok l) : t.locate path = .ok l :=
  locate_of_directories h.1.symm (fun m => h.2 m .directory) hl

/-- What a path leads to in the first tree it leads to in the second one. -/
theorem Within.node? (h : Within t' t) {n : Node} (hn : t'.node? path = some n) :
    t.node? path = some n := by
  simp only [FileTree.node?] at hn ⊢
  split at hn
  · cases hn
  · next l hl =>
    rw [h.locate hl]
    dsimp only
    cases ha : t'.at? l with
    | none => simp [ha] at hn
    | some k => rw [ha] at hn; rw [h.2 _ _ ha]; exact hn

theorem Within.not_present (h : Within t' t) (hp : t.present path = false) :
    t'.present path = false := by
  cases hn : t'.node? path with
  | none => simp [present, hn]
  | some n => simp [present, h.node? hn] at hp

/-- **What is removed is gone.** -/
theorem not_present_of_remove (h : t.remove path = .ok t') : t'.present path = false := by
  rcases remove_eq_ok h with ⟨rfl, hn⟩ | ⟨rfl, hp⟩
  · simp [present, hn]
  · have hgone : ∀ l, (t.erase (t.place path)).locate path = .ok l →
        (t.erase (t.place path)).at? l = none := by
      intro l hl
      rw [locate_eq_place hl, place_congr (erase_home ..), at?_erase t _ hp, if_pos rfl]
    simp only [present, node?]
    split
    · rfl
    · next l hl => rw [hgone l hl]; rfl

/-- If a path that leads somewhere cannot be removed, a directory is in the way. -/
theorem directory_of_remove_error {e : FileError} (hl : t.locate path = .ok l)
    (hp : Path.mustBeDirectory path = false) (h : t.remove path = .error e) :
    t.at? l = some .directory := by
  simp only [remove, hl] at h
  split at h
  · cases h
  · rw [hp] at h
    cases h
  · next hd => exact hd

/-! ## Reading -/

/-- The content of what is at a location. A directory reads as empty. -/
def contentAt? (t : FileTree) (l : Location) : Option Text :=
  match t.at? l with
  | some (.file content _) => some content
  | some .directory => some []
  | none => none

theorem contentAt?_congr (h : t'.at? l = t.at? l) : t'.contentAt? l = t.contentAt? l := by
  simp only [contentAt?, h]

/-- What can be read is the content of what is at the place of the path. -/
theorem contentAt?_of_read {content : Text} (h : t.read path = .ok content) :
    t.contentAt? (t.place path) = some content := by
  simp only [read, node?] at h
  cases hl : t.locate path with
  | error e => simp [hl] at h
  | ok l =>
    obtain rfl := locate_eq_place hl
    rw [hl] at h
    cases ha : t.at? (t.place path) with
    | none => simp [ha] at h
    | some n =>
      cases n with
      | directory => simp only [ha] at h; simp only [contentAt?, ha, Except.ok.inj h]
      | file c x =>
        by_cases hd : Path.mustBeDirectory path
        · simp [ha, hd] at h
        · simp only [ha, hd, Bool.false_eq_true, if_false] at h
          simp only [contentAt?, ha, Except.ok.inj h]

/-! ## File names -/

/-- What does not have to be a directory has its file name as the last component of its place. -/
theorem getLast?_place (t : FileTree) (h : Path.mustBeDirectory path = false) :
    (t.place path).getLast? = some (Path.fileName (Path.visible path)) := by
  simp only [Path.mustBeDirectory, Bool.or_eq_false_iff, decide_eq_false_iff_not] at h
  obtain ⟨⟨hnil, hdot⟩, hdots⟩ := h
  obtain ⟨front, hfront⟩ := List.getLast?_eq_some_iff.1 (Path.getLast?_splitOn (Path.visible path))
  simp [place, Path.components, hfront, hnil, hdot, List.foldl_append, follow, hdots]

theorem not_mustBeDirectory_of_read {content c : Text} {x : Bool} (h : t.read path = .ok content)
    (hfile : t.at? (t.place path) = some (.file c x)) : Path.mustBeDirectory path = false := by
  cases hd : Path.mustBeDirectory path with
  | false => rfl
  | true =>
    simp only [read, node?] at h
    cases hl : t.locate path with
    | error e => simp [hl] at h
    | ok l => obtain rfl := locate_eq_place hl; simp [hl, hfile, hd] at h

/-- **A file that can be read has its name as the last component of its place**, unless a NUL hides that
its temporary name is another one. -/
theorem getLast?_place_of_read {content c : Text} {x : Bool} (h : t.read path = .ok content)
    (hfile : t.at? (t.place path) = some (.file c x))
    (htmp : t.place path ≠ t.place (temporaryName path)) :
    (t.place path).getLast? = some (Path.fileName path) := by
  have hnul : '\x00' ∉ path := by
    intro hn
    apply htmp
    simp only [place, temporaryName, Path.visible_append_of_nul hn]
  rw [getLast?_place t (not_mustBeDirectory_of_read h hfile), Path.visible_of_no_nul hnul]

/-- What is between slashes makes a name when the ending of temporary names is appended. -/
theorem isName_of_temporary {n : Text} (hslash : '/' ∉ n) (hnul : '\x00' ∉ n) : Path.IsName (temporaryName n) := by
  have hlength : 4 ≤ (temporaryName n).length := by
    simp [temporaryName]
  refine ⟨?_, ?_, ?_, ?_, ?_⟩
  · intro h
    simp [h] at hlength
  · simp [temporaryName, hslash]
  · simp [temporaryName, hnul]
  · intro h
    simp [h] at hlength
  · intro h
    simp [h] at hlength

/-- **A file and its temporary name have different places**, unless a NUL hides the difference. -/
theorem place_temporaryName_ne (h : '\x00' ∉ path) (t : FileTree) :
    t.place path ≠ t.place (temporaryName path) := by
  have hnul : '\x00' ∉ temporaryName path := by
    simp [temporaryName, h]
  have hname : '\x00' ∉ Path.fileName path := by
    rcases Path.eq_fileName_or path with hpath | ⟨head, hpath⟩
    · rwa [← hpath]
    · intro hmem
      apply h
      rw [hpath]
      simp [hmem]
  have htmp := isName_of_temporary (Path.slash_not_mem_fileName path) hname
  have hstart : t.start (temporaryName path) = t.start path := by
    have habsolute : Path.isAbsolute (temporaryName path) = Path.isAbsolute path := by
      cases path with
      | nil => rfl
      | cons c p => rfl
    rw [start, habsolute, start]
  -- the two paths differ in their last piece only
  have hpieces : ∃ cs, Path.components path = cs ++ Path.components (Path.fileName path) ∧
      Path.components (temporaryName path) = cs ++ [temporaryName (Path.fileName path)] := by
    rcases Path.eq_fileName_or path with hpath | ⟨head, hpath⟩
    · refine ⟨[], ?_, ?_⟩
      · rw [← hpath, List.nil_append]
      · rw [List.nil_append, ← htmp.components, ← hpath]
    · refine ⟨Path.components head, ?_, ?_⟩
      · rw [← Path.components_append_slash, ← hpath]
      · have happend : temporaryName path = head ++ '/' :: temporaryName (Path.fileName path) := by
          unfold temporaryName
          rw [← List.cons_append, ← List.append_assoc, ← hpath]
        rw [happend, Path.components_append_slash, htmp.components]
  obtain ⟨cs, hcs, hcs'⟩ := hpieces
  simp only [place, Path.visible_of_no_nul h, Path.visible_of_no_nul hnul, hstart, hcs, hcs', List.foldl_append,
    List.foldl_cons, List.foldl_nil]
  generalize cs.foldl follow (t.start path) = l
  have hfollow : follow l (temporaryName (Path.fileName path)) = l ++ [temporaryName (Path.fileName path)] :=
    if_neg htmp.dots
  rw [hfollow]
  unfold Path.components
  rw [splitOn_of_not_mem (Path.slash_not_mem_fileName path), List.filter_cons, List.filter_nil]
  split
  · rw [List.foldl_cons, List.foldl_nil]
    unfold follow
    split
    · -- the path goes back, and its temporary name does not
      intro heq
      have hlength := congrArg List.length heq
      rw [List.length_dropLast, List.length_append, List.length_singleton] at hlength
      omega
    · intro heq
      have hsame := List.cons.inj (List.append_cancel_left heq)
      simpa [temporaryName] using congrArg List.length hsame.1
  · intro heq
    simpa using congrArg List.length heq

end Flatsheet.FileTree
