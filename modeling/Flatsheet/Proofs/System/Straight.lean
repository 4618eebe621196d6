import Flatsheet.Proofs.System.Growth

/-!
# `Proofs.System.Straight` — paths on which new directories make no difference

In a file system what there is lies in a directory (`Sound`). A path is straight if it nowhere goes back from a
location where there is nothing (`Straight`); `new/../res` is not, as long as there is no `new`. Then

* what a path leads to does not depend on directories that are made elsewhere (`node?_of_straight`), and
* making the directories of a path twice is making them once (`withParent_again`). A path that is not straight
  can fail in another way the second time.
-/

namespace Flatsheet.FileTree

open Text Flatsheet.Path

variable {t u : FileTree} {path p n : Text} {l m : Location} {cs : List Text}

/-! ## Sound trees -/

/-- **A tree as file systems have them**: what there is lies in a directory, and paths start in one. -/
structure Sound (t : FileTree) : Prop where
  home : t.at? t.home = some .directory
  entries : ∀ e ∈ t.entries, t.at? e.1.dropLast = some .directory

instance (t : FileTree) : Decidable t.Sound :=
  decidable_of_iff (t.at? t.home = some .directory ∧ ∀ e ∈ t.entries, t.at? e.1.dropLast = some .directory)
    ⟨fun h => ⟨h.1, h.2⟩, fun h => ⟨h.1, h.2⟩⟩

theorem mem_of_lookup {es : List (Location × Node)} {n : Node} (h : es.lookup l = some n) : (l, n) ∈ es := by
  induction es with
  | nil => cases h
  | cons e es ih =>
    rw [List.lookup_cons] at h
    split at h
    · next hl =>
      obtain ⟨k, n'⟩ := e
      cases h
      obtain rfl : l = k := by simpa using hl
      exact List.mem_cons_self
    · exact List.mem_cons_of_mem _ (ih h)

/-- What there is lies in a directory. -/
theorem Sound.parent (h : t.Sound) (hl : t.at? l ≠ none) : t.at? l.dropLast = some .directory := by
  by_cases hroot : l = []
  · subst hroot
    rfl
  · cases hn : t.at? l with
    | none => exact absurd hn hl
    | some n =>
      unfold at? at hn
      rw [if_neg (by simpa using hroot)] at hn
      exact h.entries _ (mem_of_lookup hn)

/-- There is nothing below nothing. -/
theorem Sound.missing (h : t.Sound) (hl : t.at? l = none) (cs : List Text) : t.at? (l ++ cs) = none := by
  have hstep : ∀ k c, t.at? k = none → t.at? (k ++ [c]) = none := by
    intro k c hk
    cases hn : t.at? (k ++ [c]) with
    | none => rfl
    | some n =>
      have hdir := h.parent (l := k ++ [c]) (by rw [hn]; exact nofun)
      rw [List.dropLast_concat, hk] at hdir
      cases hdir
  induction cs generalizing l with
  | nil => rwa [List.append_nil]
  | cons c cs ih =>
    rw [List.append_cons]
    exact ih (hstep l c hl)

/-! ## Straight paths -/

/-- Components go back only from where there is something. -/
def straightAlong (t : FileTree) (l : Location) : List Text → Bool
  | [] => true
  | c :: cs => (c ≠ ['.', '.'] || (t.at? l).isSome) && t.straightAlong (follow l c) cs

/-- **The path goes back only from where there is something.** -/
def Straight (t : FileTree) (path : Text) : Prop :=
  t.straightAlong (t.start (visible path)) (components (visible path)) = true

instance (t : FileTree) (path : Text) : Decidable (t.Straight path) := inferInstanceAs (Decidable (_ = true))

theorem foldl_follow_of_plain (h : ['.', '.'] ∉ cs) (l : Location) : cs.foldl follow l = l ++ cs := by
  induction cs generalizing l with
  | nil => simp
  | cons c cs ih =>
    simp only [List.mem_cons, not_or] at h
    rw [List.foldl_cons, ih h.2, follow, if_neg (Ne.symm h.1), List.append_assoc]
    rfl

theorem straightAlong_append (t : FileTree) (l : Location) (cs ds : List Text) :
    t.straightAlong l (cs ++ ds) = (t.straightAlong l cs && t.straightAlong (cs.foldl follow l) ds) := by
  induction cs generalizing l with
  | nil => rfl
  | cons c cs ih =>
    rw [List.cons_append, straightAlong, straightAlong, ih, List.foldl_cons, Bool.and_assoc]

/-- A name in a directory does not go back. -/
theorem Straight.join (h : t.Straight p) (hn : IsName n) : t.Straight (join p n) := by
  unfold Straight at h ⊢
  by_cases hp : '\x00' ∈ p
  · rw [visible_join_of_nul hn hp]
    exact h
  · rw [start_join hn, visible_join hn hp, components_join hn, ← visible_of_no_nul hp, straightAlong_append,
      visible_of_no_nul (by rwa [visible_of_no_nul hp]), h]
    simp [straightAlong, hn.dots]

/-- From where there is nothing, a straight path does not go back. -/
theorem plain_of_missing (h : t.Sound) (hl : t.at? l = none) (hs : t.straightAlong l cs = true) :
    ['.', '.'] ∉ cs := by
  induction cs generalizing l with
  | nil => exact List.not_mem_nil
  | cons c cs ih =>
    unfold straightAlong at hs
    simp only [hl, Option.isSome_none, Bool.or_false, Bool.and_eq_true, decide_eq_true_eq] at hs
    obtain ⟨hc, hs⟩ := hs
    have hnext : t.at? (follow l c) = none := by
      rw [follow, if_neg hc]
      exact h.missing hl [c]
    intro hmem
    rcases List.mem_cons.1 hmem with hmem | hmem
    · exact hc hmem.symm
    · exact ih hnext hs hmem

/-- What is missing on a straight way lies on the way to where it leads. -/
theorem prefix_of_missing (h : t.Sound) (hs : t.straightAlong l cs = true) (hm : m ∈ trail l cs)
    (hmissing : t.at? m = none) : m <+: cs.foldl follow l := by
  induction cs generalizing l with
  | nil => exact absurd hm List.not_mem_nil
  | cons c cs ih =>
    unfold straightAlong at hs
    rw [Bool.and_eq_true] at hs
    rcases List.mem_cons.1 hm with rfl | hm
    · rw [List.foldl_cons, foldl_follow_of_plain (plain_of_missing h hmissing hs.2)]
      exact List.prefix_append ..
    · exact ih hs.2 hm

theorem prefix_of_missing_way (h : t.Sound) (hs : t.Straight path) (hm : m ∈ t.way path)
    (hmissing : t.at? m = none) : m <+: t.place path := prefix_of_missing h hs hm hmissing

/-- What a walk along components finds at its end. -/
def foundAlong (t : FileTree) (l : Location) (cs : List Text) : Option Node :=
  match t.walk l cs with
  | .error _ => none
  | .ok m => t.at? m

theorem foundAlong_cons (t : FileTree) (l : Location) (c : Text) (cs : List Text) :
    t.foundAlong l (c :: cs) =
      if t.at? l = some .directory ∧ c.length ≤ longestName then t.foundAlong (follow l c) cs else none := by
  unfold foundAlong
  rw [walk]
  cases t.at? l with
  | none => simp
  | some node =>
    cases node with
    | file content x => simp
    | directory =>
      by_cases hlong : longestName < c.length
      · simp [hlong, Nat.not_le.2 hlong]
      · simp [hlong, Nat.not_lt.1 hlong]

/-- Where nothing is at the end, nothing is found. -/
theorem foundAlong_of_missing (h : t.at? (cs.foldl follow l) = none) : t.foundAlong l cs = none := by
  unfold foundAlong
  cases hw : t.walk l cs with
  | error e => rfl
  | ok m =>
    rw [walk_eq_foldl hw]
    exact h

/-- **New directories on the way change nothing about what a straight path leads to.** -/
theorem foundAlong_of_straight (h : t.Sound) (hs : t.straightAlong l cs = true)
    (hkept : ∀ m, t.at? m = some .directory → u.at? m = some .directory)
    (hnew : ∀ m, u.at? m = some .directory → t.at? m = some .directory ∨ t.at? m = none)
    (hend : u.at? (cs.foldl follow l) = t.at? (cs.foldl follow l)) :
    u.foundAlong l cs = t.foundAlong l cs := by
  induction cs generalizing l with
  | nil => exact hend
  | cons c cs ih =>
    have hnext := hs
    unfold straightAlong at hnext
    rw [Bool.and_eq_true] at hnext
    by_cases hdir : u.at? l = some .directory
    · rcases hnew l hdir with ht | ht
      · rw [foundAlong_cons, foundAlong_cons, hdir, ht, ih hnext.2 hend]
      · -- nothing is below in the one tree, so nothing is at the end in the other one
        have hgone : t.at? ((c :: cs).foldl follow l) = none := by
          rw [foldl_follow_of_plain (plain_of_missing h ht hs)]
          exact h.missing ht _
        rw [foundAlong_of_missing hgone, foundAlong_of_missing (hend.trans hgone)]
    · rw [foundAlong_cons, foundAlong_cons, if_neg fun hu => hdir hu.1, if_neg fun ht => hdir (hkept l ht.1)]

theorem node?_eq_foundAlong (t : FileTree) (path : Text) :
    t.node? path =
      if (visible path).isEmpty ∨ longestPath < (visible path).length then none
      else match t.foundAlong (t.start (visible path)) (components (visible path)) with
        | some (.file content x) => if mustBeDirectory path then none else some (.file content x)
        | other => other := by
  simp only [node?, locate, foundAlong]
  by_cases hempty : (visible path).isEmpty
  · simp [hempty]
  · by_cases hlong : longestPath < (visible path).length
    · simp [hempty, hlong]
    · simp only [hempty, hlong, Bool.false_eq_true, or_self, if_false]
      cases t.walk (t.start (visible path)) (components (visible path)) with
      | error e => rfl
      | ok l => rfl

/-- **What a straight path leads to is a matter of what is at its place**, as far as directories are only
added. -/
theorem node?_of_straight (h : t.Sound) (hs : t.Straight path) (hhome : u.home = t.home)
    (hkept : ∀ m, t.at? m = some .directory → u.at? m = some .directory)
    (hnew : ∀ m, u.at? m = some .directory → t.at? m = some .directory ∨ t.at? m = none)
    (hend : u.at? (t.place path) = t.at? (t.place path)) : u.node? path = t.node? path := by
  have hstart := start_congr hhome (visible path)
  rw [node?_eq_foundAlong, node?_eq_foundAlong, hstart, foundAlong_of_straight h hs hkept hnew hend]

/-! ## Making directories twice -/

/-- Where all directories are there, none is made. -/
theorem makeAlong_of_directories {made : Bool} (h : ∀ m ∈ trail l cs, t.at? m = some .directory) :
    t.makeAlong made l cs = (.ok (), t) := by
  induction cs generalizing l with
  | nil => rfl
  | cons c cs ih =>
    unfold makeAlong
    rw [h _ List.mem_cons_self]
    exact ih fun m hm => h m (List.mem_cons_of_mem _ hm)

/-- Directories that are all missing are made as far as their names allow it, and no further the second
time. -/
theorem makeAlong_again_of_missing {made : Bool} {v : Except FileError Unit} (hplain : ['.', '.'] ∉ cs)
    (hmissing : ∀ b, b ≠ [] → b <+: cs → t.at? (l ++ b) = none) (h : t.makeAlong made l cs = (v, u))
    (again : Bool) : u.makeAlong again l cs = (v, u) := by
  induction cs generalizing t made l with
  | nil =>
    cases h
    rfl
  | cons c cs ih =>
    simp only [List.mem_cons, not_or] at hplain
    have hfollow : follow l c = l ++ [c] := if_neg (Ne.symm hplain.1)
    have hnone : t.at? (l ++ [c]) = none := hmissing [c] (by simp) (by simp)
    have hnext := h
    unfold makeAlong at hnext
    rw [hfollow, hnone] at hnext
    dsimp only at hnext
    split at hnext
    · next hlong =>
      cases hnext
      unfold makeAlong
      rw [hfollow, hnone]
      simp [hlong]
    · have hput := fun m => at?_put t .directory m (ne_root_of_none hnone)
      have hrest : ∀ b, b ≠ [] → b <+: cs → (t.put (l ++ [c]) .directory).at? (l ++ [c] ++ b) = none := by
        intro b hb hprefix
        rw [hput, if_neg (by simpa using hb), List.append_assoc]
        exact hmissing (c :: b) (by simp) ((List.prefix_cons_inj c).2 hprefix)
      -- the second time the directory is there, so it is entered
      have hdir : u.at? (l ++ [c]) = some .directory := by
        have hthere : (t.put (l ++ [c]) .directory).at? (l ++ [c]) ≠ none := by simp [hput]
        have hkept := (kept_makeAlong (t.put (l ++ [c]) .directory) true (l ++ [c]) cs (l ++ [c])).at?_eq hthere
        rw [hnext, hput, if_pos rfl] at hkept
        exact hkept
      unfold makeAlong
      rw [hfollow, hdir]
      exact ih hplain.2 hrest hnext

/-- **Making the directories along straight components twice is making them once**, also if that fails. -/
theorem makeAlong_again {v : Except FileError Unit} (ht : t.Sound) (hs : t.straightAlong l cs = true)
    (h : t.makeAlong false l cs = (v, u)) : u.makeAlong false l cs = (v, u) := by
  induction cs generalizing l with
  | nil =>
    cases h
    rfl
  | cons c cs ih =>
    have hnext := hs
    unfold straightAlong at hnext
    rw [Bool.and_eq_true] at hnext
    -- from the first missing component on all are missing
    cases hn : t.at? (follow l c) with
    | none =>
      have hc : c ≠ ['.', '.'] := by
        rintro rfl
        have hl : t.at? l ≠ none := by
          intro hl
          simp [hl] at hnext
        rw [follow, if_pos rfl, ht.parent hl] at hn
        cases hn
      have hplain := plain_of_missing ht hn hnext.2
      rw [follow, if_neg hc] at hn
      refine makeAlong_again_of_missing ?_ ?_ h false
      · simp [Ne.symm hc, hplain]
      · intro b hb hprefix
        obtain ⟨d, b, rfl⟩ := List.exists_cons_of_ne_nil hb
        obtain ⟨rfl, -⟩ := List.cons_prefix_cons.1 hprefix
        rw [List.append_cons]
        exact ht.missing hn b
    | some node =>
      unfold makeAlong at h ⊢
      rw [hn] at h
      cases node with
      | directory =>
        have hdir : u.at? (follow l c) = some .directory := by
          have hthere : t.at? (follow l c) ≠ none := by simp [hn]
          have hkept := (kept_makeAlong t false (follow l c) cs (follow l c)).at?_eq hthere
          dsimp only at h
          rw [h, hn] at hkept
          exact hkept
        rw [hdir]
        exact ih hnext.2 h
      | file content x =>
        cases h
        rw [hn]

theorem missingAlong_le_length (t : FileTree) (l : Location) (cs : List Text) :
    t.missingAlong l cs ≤ (cs.filter (· ≠ ['.', '.'])).length := by
  induction cs generalizing l with
  | nil => exact Nat.le_refl _
  | cons c cs ih =>
    unfold missingAlong
    split
    · exact Nat.le_refl _
    · refine Nat.le_trans (ih _) ?_
      rw [List.filter_cons]
      split
      · exact Nat.le_succ _
      · exact Nat.le_refl _

/-- Where there is more, less is missing. -/
theorem missingAlong_le (hu : ∀ m, t.at? m ≠ none → u.at? m ≠ none) (l : Location) (cs : List Text) :
    u.missingAlong l cs ≤ t.missingAlong l cs := by
  induction cs generalizing l with
  | nil => exact Nat.le_refl _
  | cons c cs ih =>
    unfold missingAlong
    cases ht : t.at? (follow l c) with
    | none =>
      have hle := missingAlong_le_length u l (c :: cs)
      unfold missingAlong at hle
      exact hle
    | some n =>
      cases hn : u.at? (follow l c) with
      | none => exact absurd hn (hu _ (by rw [ht]; exact nofun))
      | some n' => exact ih _

theorem missingAlong_of_directories (h : ∀ m ∈ trail l cs, t.at? m = some .directory) :
    t.missingAlong l cs = 0 := by
  induction cs generalizing l with
  | nil => rfl
  | cons c cs ih =>
    unfold missingAlong
    rw [h _ List.mem_cons_self]
    exact ih fun m hm => h m (List.mem_cons_of_mem _ hm)

/-- **Making the directories of a straight path twice is making them once**, also if that fails. -/
theorem makeDirectories_again {v : Except FileError Unit} (ht : t.Sound) (hs : t.Straight path)
    (h : t.makeDirectories path = (v, u)) : u.makeDirectories path = (v, u) := by
  have hhome : u.home = t.home := by
    rw [← makeDirectories_home t path, h]
  have hmore : ∀ m, t.at? m ≠ none → u.at? m ≠ none := by
    intro m hm
    have hkept := (kept_makeDirectories t path m).at?_eq hm
    rw [h] at hkept
    rwa [hkept]
  have hstart := start_congr hhome (visible path)
  have hmissing := missingAlong_le hmore (t.start (visible path)) (components (visible path))
  have hnext := h
  unfold makeDirectories at hnext ⊢
  dsimp only at hnext ⊢
  rw [hstart]
  split at hnext
  · next hempty =>
    cases hnext
    rw [if_pos hempty]
  · next hempty =>
    rw [if_neg hempty]
    split at hnext
    · next hlong =>
      cases hnext
      rw [if_pos hlong]
    · next hlong =>
      simp only [Bool.or_eq_true, decide_eq_true_eq, not_or] at hlong
      rw [if_neg (by simp only [Bool.or_eq_true, decide_eq_true_eq, not_or]; omega)]
      exact makeAlong_again ht hs hnext

/-- Where all directories of a path are there, none is made. -/
theorem makeDirectories_of_directories (h : t.makeDirectories path = (.ok (), u)) {w : FileTree}
    (hhome : w.home = t.home) (hw : ∀ m ∈ t.way path, w.at? m = some .directory) :
    w.makeDirectories path = (.ok (), w) := by
  have hstart := start_congr hhome (visible path)
  unfold makeDirectories at h ⊢
  dsimp only at h ⊢
  split at h
  · cases h
  · next hempty =>
    split at h
    · cases h
    · next hlong =>
      simp only [Bool.or_eq_true, decide_eq_true_eq, not_or] at hlong
      rw [if_neg hempty, hstart, missingAlong_of_directories hw, if_neg]
      · exact makeAlong_of_directories hw
      · simp only [Bool.or_eq_true, decide_eq_true_eq, not_or]
        exact ⟨hlong.1, by omega⟩

/-! ## The directory of files beside each other -/

theorem straight_parent_join (hn : IsName n) : t.Straight (parent (join p n)) ↔ t.Straight p := by
  by_cases hp : p = []
  · subst hp
    rw [join_nil_left, parent_name hn]
  · obtain ⟨-, hcomponents, habsolute⟩ := parent_join hp hn
    unfold Straight start
    rw [hcomponents, isAbsolute_visible, isAbsolute_visible, habsolute]

/-- Files beside each other have one directory to make. -/
theorem withParent_join_eq {n' : Text} (hn : IsName n) (hn' : IsName n') (t : FileTree) (p : Text) :
    t.withParent (join p n) = t.withParent (join p n') := by
  unfold withParent
  rw [parent_join_eq hn hn']

/-- **The directory of a file is made once**, if its path is straight. -/
theorem withParent_again {v : Except FileError Unit} (ht : t.Sound) (hs : t.Straight p) (hn : IsName n)
    (h : t.withParent (join p n) = (v, u)) : u.withParent (join p n) = (v, u) := by
  unfold withParent at h ⊢
  split at h
  · next hempty =>
    cases h
    rw [if_pos hempty]
  · next hempty =>
    rw [if_neg hempty]
    exact makeDirectories_again ht ((straight_parent_join hn).2 hs) h

/-- The directory of a file is not made where all directories on the way are there. -/
theorem withParent_of_directories (hn : IsName n) (h : t.withParent (join p n) = (.ok (), u)) {w : FileTree}
    (hhome : w.home = t.home) (hw : ∀ m ∈ t.way p, w.at? m = some .directory) :
    w.withParent (join p n) = (.ok (), w) := by
  unfold withParent at h ⊢
  split at h
  · next hempty => rw [if_pos hempty]
  · next hempty =>
    rw [if_neg hempty]
    rw [← way_parent_join hn] at hw
    exact makeDirectories_of_directories h hhome hw

/-- What is made on a straight way is not in the directory that the path leads to. -/
theorem not_made_below (ht : t.Sound) (hs : t.Straight p) (hmissing : t.at? (t.place p ++ [n]) = none) :
    t.place p ++ [n] ∉ t.way p := by
  intro hm
  have hlength := (prefix_of_missing_way ht hs hm hmissing).length_le
  rw [List.length_append, List.length_singleton] at hlength
  omega

end Flatsheet.FileTree
