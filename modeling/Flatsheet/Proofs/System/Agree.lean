import Flatsheet.Proofs.System.Growth

/-!
# `Proofs.System.Agree` — trees that look the same to an operation

Two trees agree on some locations if the same is there in both, and if they have the same directories everywhere
(`Agree`). An operation that only looks at such locations comes to the same in both of them, and they still
agree afterwards (`Agree.create`, `Agree.rename`). What it changes is at its own locations alone
(`agree_of_create`, `agree_of_rename`): that is agreement again, everywhere else.
-/

namespace Flatsheet.FileTree

open Text Flatsheet.Path

variable {t u v : FileTree} {path p n content : Text} {l m : Location} {P Q : Location → Prop}

theorem directoryAt_iff : t.directoryAt l = true ↔ t.at? l = some .directory := by
  unfold directoryAt
  cases t.at? l with
  | none => simp
  | some n => cases n <;> simp

/-- **The trees have the same directories, and the same is at some locations.** -/
structure Agree (P : Location → Prop) (t u : FileTree) : Prop where
  home : u.home = t.home
  directories : ∀ m, u.at? m = some .directory ↔ t.at? m = some .directory
  same : ∀ m, P m → u.at? m = t.at? m

namespace Agree

theorem refl (P : Location → Prop) (t : FileTree) : Agree P t t := ⟨rfl, fun _ => Iff.rfl, fun _ _ => rfl⟩

theorem symm (h : Agree P t u) : Agree P u t :=
  ⟨h.home.symm, fun m => (h.directories m).symm, fun m hm => (h.same m hm).symm⟩

theorem trans (h : Agree P t u) (h' : Agree P u v) : Agree P t v :=
  ⟨h'.home.trans h.home, fun m => (h'.directories m).trans (h.directories m),
    fun m hm => (h'.same m hm).trans (h.same m hm)⟩

theorem mono (h : Agree P t u) (hQ : ∀ m, Q m → P m) : Agree Q t u :=
  ⟨h.home, h.directories, fun m hm => h.same m (hQ m hm)⟩

theorem place_eq (h : Agree P t u) (path : Text) : u.place path = t.place path := place_congr h.home path

theorem directoryAt_eq (h : Agree P t u) (l : Location) : u.directoryAt l = t.directoryAt l := by
  rw [Bool.eq_iff_iff, directoryAt_iff, directoryAt_iff]
  exact h.directories l

theorem locate (h : Agree P t u) (hl : t.locate path = .ok l) : u.locate path = .ok l :=
  locate_of_directories h.home (fun m => (h.directories m).2) hl

/-- Putting the same file at the same location, where there is no directory, keeps trees in agreement. -/
theorem put (h : Agree P t u) (hl : t.directoryAt l = false) (content : Text) (x : Bool) :
    Agree P (t.put l (.file content x)) (u.put l (.file content x)) := by
  have hroot := ne_root_of_not_directory hl
  refine ⟨h.home, fun m => ?_, fun m hm => ?_⟩
  · rw [at?_put _ _ m hroot, at?_put _ _ m hroot]
    split
    · simp
    · exact h.directories m
  · rw [at?_put _ _ m hroot, at?_put _ _ m hroot]
    split
    · rfl
    · exact h.same m hm

theorem erase (h : Agree P t u) (hl : l ≠ []) : Agree P (t.erase l) (u.erase l) := by
  refine ⟨h.home, fun m => ?_, fun m hm => ?_⟩
  · rw [at?_erase _ m hl, at?_erase _ m hl]
    split
    · simp
    · exact h.directories m
  · rw [at?_erase _ m hl, at?_erase _ m hl]
    split
    · rfl
    · exact h.same m hm

end Agree

/-! ## Changes at a location -/

theorem not_directory_of_directoryAt (hl : t.directoryAt l = false) : t.at? l ≠ some .directory := by
  intro hdir
  rw [directoryAt_iff.2 hdir] at hl
  cases hl

/-- A tree agrees with itself after a change at a location where there is no directory. -/
theorem agree_put (hl : t.directoryAt l = false) (content : Text) (x : Bool) :
    Agree (· ≠ l) t (t.put l (.file content x)) := by
  have hroot := ne_root_of_not_directory hl
  refine ⟨rfl, fun m => ?_, fun m hm => ?_⟩
  · rw [at?_put _ _ m hroot]
    split
    · next hm =>
      rw [hm]
      exact ⟨nofun, fun hdir => absurd hdir (not_directory_of_directoryAt hl)⟩
    · exact Iff.rfl
  · rw [at?_put _ _ m hroot, if_neg hm]

theorem agree_erase (hl : t.directoryAt l = false) : Agree (· ≠ l) t (t.erase l) := by
  have hroot := ne_root_of_not_directory hl
  refine ⟨rfl, fun m => ?_, fun m hm => ?_⟩
  · rw [at?_erase _ m hroot]
    split
    · next hm =>
      rw [hm]
      exact ⟨nofun, fun hdir => absurd hdir (not_directory_of_directoryAt hl)⟩
    · exact Iff.rfl
  · rw [at?_erase _ m hroot, if_neg hm]

/-! ## Creating -/

/-- The file at the location may be run as a program. -/
def executableAt (t : FileTree) (l : Location) : Bool :=
  match t.at? l with
  | some (.file _ x) => x
  | _ => false

/-- When a file is created, and what that makes. -/
theorem create_iff : t.create path content = .ok u ↔
    t.locate path = .ok (t.place path) ∧ mustBeDirectory path = false ∧
      t.directoryAt (t.place path) = false ∧
      u = t.put (t.place path) (.file content (t.executableAt (t.place path))) := by
  simp only [create, bind, Except.bind]
  cases hl : t.locate path with
  | error e => simp
  | ok l =>
    obtain rfl := locate_eq_place hl
    by_cases hpath : mustBeDirectory path
    · simp [hpath]
    · by_cases hdir : t.directoryAt (t.place path)
      · simp [hdir]
      · simp only [hpath, hdir, Bool.or_self, Bool.false_eq_true, if_false, true_and, Except.ok.injEq]
        exact eq_comm

/-- Creating a file changes nothing but what is at its location. -/
theorem agree_of_create (h : t.create path content = .ok u) : Agree (· ≠ t.place path) t u := by
  obtain ⟨-, -, hdir, rfl⟩ := create_iff.1 h
  exact agree_put hdir _ _

/-- **Creating a file comes to the same in trees that agree on its location.** -/
theorem Agree.create (h : Agree P t u) (hP : P (t.place path)) {t' : FileTree}
    (ht : t.create path content = .ok t') : ∃ u', u.create path content = .ok u' ∧ Agree P t' u' := by
  obtain ⟨hl, hpath, hdir, rfl⟩ := create_iff.1 ht
  have hx : u.executableAt (t.place path) = t.executableAt (t.place path) := by
    unfold executableAt
    rw [h.same _ hP]
  refine ⟨u.put (t.place path) (.file content (t.executableAt (t.place path))), ?_, h.put hdir _ _⟩
  rw [create_iff, h.place_eq, h.directoryAt_eq, hx]
  exact ⟨h.locate hl, hpath, hdir, rfl⟩

theorem Agree.create_error (h : Agree P t u) (hP : P (t.place path)) {e : FileError}
    (ht : t.create path content = .error e) : ∃ e', u.create path content = .error e' := by
  cases hu : u.create path content with
  | error e' => exact ⟨e', rfl⟩
  | ok u' =>
    rw [← h.place_eq] at hP
    obtain ⟨t', ht', -⟩ := h.symm.create hP hu
    rw [ht] at ht'
    cases ht'

/-! ## Renaming -/

variable {source dest : Text} {x : Bool}

/-- Renaming a file changes nothing but what is at the two locations. -/
theorem agree_of_rename (h : t.rename source dest = .ok u) (hs : t.directoryAt (t.place source) = false) :
    Agree (fun m => m ≠ t.place source ∧ m ≠ t.place dest) t u := by
  obtain ⟨hdir, n, hn, rfl⟩ := rename_eq_ok h
  cases n with
  | directory => exact absurd hn (not_directory_of_directoryAt hs)
  | file content x =>
    have herase := agree_erase hs
    have hfree : (t.erase (t.place source)).directoryAt (t.place dest) = false := by
      rw [herase.directoryAt_eq]
      exact hdir
    have hput := agree_put hfree content x
    exact (herase.mono fun _ hm => hm.1).trans (hput.mono fun _ hm => hm.2)

/-- **Renaming a file comes to the same in trees that agree on its location**, if the new name leads to the
same in both. -/
theorem Agree.rename (h : Agree P t u) (hs : P (t.place source))
    (hl : t.locate source = .ok (t.place source)) (hlocate : u.locate dest = t.locate dest)
    (hfile : t.at? (t.place source) = some (.file content x)) :
    (∃ e, t.rename source dest = .error e ∧ u.rename source dest = .error e) ∨
      ∃ t' u', t.rename source dest = .ok t' ∧ u.rename source dest = .ok u' ∧ Agree P t' u' := by
  have hfree : t.directoryAt (t.place source) = false := by
    simp [directoryAt, hfile]
  simp only [FileTree.rename, bind, Except.bind]
  rw [h.locate hl, hl, hlocate]
  dsimp only
  cases hm : t.locate dest with
  | error e => exact .inl ⟨e, rfl, rfl⟩
  | ok m =>
    obtain rfl := locate_eq_place hm
    dsimp only
    rw [h.same _ hs, hfile, h.directoryAt_eq]
    dsimp only
    split
    · exact .inl ⟨_, rfl, rfl⟩
    · split
      · exact .inl ⟨_, rfl, rfl⟩
      · split
        · exact .inl ⟨_, rfl, rfl⟩
        · next hdir =>
          have herase : (t.erase (t.place source)).directoryAt (t.place dest) = false := by
            rw [(agree_erase hfree).directoryAt_eq]
            simpa using hdir
          exact .inr ⟨_, _, rfl, rfl, (h.erase (ne_root_of_not_directory hfree)).put herase content x⟩

/-! ## Removing -/

/-- Removing a file changes nothing but what is at its location. -/
theorem agree_of_removed (hs : t.directoryAt (t.place source) = false) :
    Agree (· ≠ t.place source) t (t.removed source) := by
  unfold removed
  cases h : t.remove source with
  | error e => exact .refl _ t
  | ok u =>
    rcases remove_eq_ok h with ⟨rfl, -⟩ | ⟨rfl, -⟩
    · exact .refl _ _
    · exact agree_erase hs

/-- **Removing a file comes to the same in trees that agree on its location.** -/
theorem Agree.removed (h : Agree P t u) (hs : P (t.place source))
    (hl : t.locate source = .ok (t.place source))
    (hfile : t.at? (t.place source) = some (.file content x)) :
    Agree P (t.removed source) (u.removed source) := by
  have hfree : t.directoryAt (t.place source) = false := by
    simp [directoryAt, hfile]
  simp only [FileTree.removed, remove]
  rw [h.locate hl, hl]
  dsimp only
  rw [h.same _ hs, hfile]
  dsimp only
  split
  · exact h
  · exact h.erase (ne_root_of_not_directory hfree)

end Flatsheet.FileTree
