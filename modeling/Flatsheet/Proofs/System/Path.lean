import Flatsheet.Proofs.Text.Lines
import Flatsheet.System.Path

/-!
# `Proofs.System.Path` — the pieces of a path

The last piece of a path between slashes is its file name (`getLast?_splitOn`), and what is appended to a
path that holds a NUL does not count (`visible_append_of_nul`). In one directory, different names make
different paths (`join_right_inj`).

A name (`IsName`) that is joined to the path of a directory is one more component (`components_join`), unless
a NUL hides it (`visible_join_of_nul`). The directory of the joined path leads where the path of the
directory leads (`parent_join`), whatever the name (`parent_join_eq`).
-/

namespace Flatsheet.Path

open Text

/-! ## Pieces between slashes -/

theorem slash_not_mem_fileName (p : Text) : '/' ∉ fileName p := by
  rw [fileName, List.mem_reverse]
  intro h
  simpa using List.all_eq_true.1 List.all_takeWhile _ h

/-- A path is its file name, or what is before the last slash, the slash and its file name. -/
theorem eq_fileName_or (p : Text) :
    p = fileName p ∨ ∃ head, p = head ++ '/' :: fileName p := by
  have hsplit : (p.reverse.dropWhile (· ≠ '/')).reverse ++ fileName p = p := by
    rw [fileName, ← List.reverse_append, List.takeWhile_append_dropWhile, List.reverse_reverse]
  cases hd : p.reverse.dropWhile (· ≠ '/') with
  | nil =>
    rw [hd] at hsplit
    exact .inl hsplit.symm
  | cons c rest =>
    have hc : c = '/' := by
      have h := List.head?_dropWhile_not (· ≠ '/') p.reverse
      rw [hd] at h
      simpa using h
    rw [hd, hc, List.reverse_cons, List.append_assoc] at hsplit
    exact .inr ⟨rest.reverse, hsplit.symm⟩

/-- The last piece between slashes is the file name. -/
theorem getLast?_splitOn (p : Text) : (splitOn '/' p).getLast? = some (fileName p) := by
  have hname := splitOn_of_not_mem (slash_not_mem_fileName p)
  rcases eq_fileName_or p with h | ⟨head, h⟩
  · rw [← h] at hname
    rw [hname, ← h]
    rfl
  · calc (splitOn '/' p).getLast? = (splitOn '/' (head ++ '/' :: fileName p)).getLast? := by rw [← h]
      _ = some (fileName p) := by rw [splitOn_append_cons, hname]; simp

/-! ## The visible part -/

/-- A NUL in a path hides what is appended to it. -/
theorem visible_append_of_nul {path : Text} (h : '\x00' ∈ path) (suffix : Text) :
    visible (path ++ suffix) = visible path := by
  induction path with
  | nil => simp at h
  | cons c p ih =>
    by_cases hc : c = '\x00'
    · simp [visible, hc]
    · have hp : '\x00' ∈ p := by simpa [Ne.symm hc] using h
      simpa [visible, hc] using ih hp

theorem visible_of_no_nul {path : Text} (h : '\x00' ∉ path) : visible path = path := by
  induction path with
  | nil => rfl
  | cons c p ih =>
    simp only [List.mem_cons, not_or] at h
    simpa [visible, Ne.symm h.1] using ih h.2

/-! ## Joining -/

theorem isAbsolute_append_fileName (pre p : Text) :
    isAbsolute (pre ++ fileName p) = isAbsolute pre := by
  cases pre with
  | cons c pre => rfl
  | nil =>
    rw [List.nil_append]
    cases hname : fileName p with
    | nil => rfl
    | cons c name =>
      have hc : c ≠ '/' := by
        rintro rfl
        exact slash_not_mem_fileName p (hname ▸ List.mem_cons_self)
      simp [isAbsolute, hc]

/-- **In one directory, different names make different paths.** -/
theorem join_right_inj {p q q' : Text} (hq : isAbsolute q = isAbsolute q') (h : join p q = join p q') :
    q = q' := by
  simp only [join, hq] at h
  split at h
  · exact h
  · split at h
    · exact List.append_cancel_left h
    · exact List.cons.inj (List.append_cancel_left h) |>.2

/-! ## Names in a directory -/

/-- The text names something in a directory. -/
structure IsName (n : Text) : Prop where
  nonempty : n ≠ []
  slash : '/' ∉ n
  nul : '\x00' ∉ n
  dot : n ≠ ['.']
  dots : n ≠ ['.', '.']

instance (n : Text) : Decidable (IsName n) :=
  decidable_of_iff (n ≠ [] ∧ '/' ∉ n ∧ '\x00' ∉ n ∧ n ≠ ['.'] ∧ n ≠ ['.', '.'])
    ⟨fun ⟨h₁, h₂, h₃, h₄, h₅⟩ => ⟨h₁, h₂, h₃, h₄, h₅⟩, fun h => ⟨h.1, h.2, h.3, h.4, h.5⟩⟩

variable {p n m : Text}

theorem IsName.not_isAbsolute (h : IsName n) : isAbsolute n = false := by
  cases n with
  | nil => rfl
  | cons c r =>
    have hc : c ≠ '/' := by
      rintro rfl
      exact h.slash List.mem_cons_self
    simp [isAbsolute, hc]

theorem components_append_slash (a b : Text) :
    components (a ++ '/' :: b) = components a ++ components b := by
  unfold components
  rw [splitOn_append_cons, List.filter_append]

theorem IsName.components (h : IsName n) : components n = [n] := by
  unfold Path.components
  rw [splitOn_of_not_mem h.slash]
  simp [h.nonempty, h.dot]

/-- What stands before the names in a directory: the path of the directory, up to its last slash. -/
theorem join_eq (hp : p ≠ []) :
    ∃ a, (∀ n, IsName n → join p n = a ++ '/' :: n) ∧ (p = a ∧ a ≠ [] ∨ p = a ++ ['/']) := by
  have hjoin : ∀ n, IsName n →
      join p n = if p.getLast? = some '/' then p ++ n else p ++ '/' :: n := by
    intro n h
    unfold join
    rw [h.not_isAbsolute, Bool.false_or, if_neg (by simpa using hp)]
  by_cases hlast : p.getLast? = some '/'
  · obtain ⟨a, rfl⟩ := List.getLast?_eq_some_iff.1 hlast
    refine ⟨a, fun n h => ?_, .inr rfl⟩
    rw [hjoin n h, if_pos hlast]
    simp
  · exact ⟨p, fun n h => by rw [hjoin n h, if_neg hlast], .inl ⟨rfl, hp⟩⟩

theorem join_nil_left (n : Text) : join [] n = n := by
  simp [join]

/-- What is appended to a name in a directory is appended to the whole path. -/
theorem IsName.join_append (h : IsName n) (suffix : Text) : join p (n ++ suffix) = join p n ++ suffix := by
  have habsolute : isAbsolute (n ++ suffix) = isAbsolute n := by
    cases n with
    | nil => exact absurd rfl h.nonempty
    | cons c r => rfl
  unfold join
  rw [habsolute]
  split
  · rfl
  · split <;> simp

@[simp] theorem isAbsolute_visible (p : Text) : isAbsolute (visible p) = isAbsolute p := by
  cases p with
  | nil => rfl
  | cons c r =>
    by_cases hc : c = '\x00'
    · simp [isAbsolute, visible, hc]
    · simp [isAbsolute, visible, hc]

theorem isAbsolute_append (hp : p ≠ []) (q : Text) : isAbsolute (p ++ q) = isAbsolute p := by
  cases p with
  | nil => exact absurd rfl hp
  | cons c r => rfl

theorem isAbsolute_join (h : IsName n) : isAbsolute (join p n) = isAbsolute p := by
  by_cases hp : p = []
  · subst hp
    rw [join_nil_left, h.not_isAbsolute]
    rfl
  · obtain ⟨a, hjoin, ⟨rfl, ha⟩ | rfl⟩ := join_eq hp
    · rw [hjoin n h, isAbsolute_append ha]
    · rw [hjoin n h, List.append_cons, isAbsolute_append (by simp)]

/-- **A name in a directory is one more component.** -/
theorem components_join (h : IsName n) : components (join p n) = components p ++ [n] := by
  by_cases hp : p = []
  · subst hp
    rw [join_nil_left, h.components]
    rfl
  · obtain ⟨a, hjoin, ⟨rfl, -⟩ | rfl⟩ := join_eq hp
    · rw [hjoin n h, components_append_slash, h.components]
    · rw [hjoin n h, components_append_slash, components_append_slash, h.components]
      simp [components, splitOn]

theorem fileName_join (h : IsName n) : fileName (join p n) = n := by
  have hlast := getLast?_splitOn (join p n)
  by_cases hp : p = []
  · subst hp
    rw [join_nil_left] at hlast ⊢
    rw [splitOn_of_not_mem h.slash] at hlast
    exact (Option.some.inj hlast).symm
  · obtain ⟨a, hjoin, -⟩ := join_eq hp
    rw [hjoin n h, splitOn_append_cons, splitOn_of_not_mem h.slash, List.getLast?_concat] at hlast
    rw [hjoin n h]
    exact (Option.some.inj hlast).symm

/-- A path without components can only be a directory. -/
theorem mustBeDirectory_of_no_components (h : components (visible p) = []) : mustBeDirectory p = true := by
  have hmem := List.mem_of_getLast? (getLast?_splitOn (visible p))
  have hnot := List.filter_eq_nil_iff.1 h _ hmem
  unfold mustBeDirectory
  generalize fileName (visible p) = name at hnot
  by_cases hname : name = []
  · simp [hname]
  · by_cases hdot : name = ['.']
    · simp [hdot]
    · simp [hname, hdot] at hnot

/-- A name in a directory does not count if a NUL hides it. -/
theorem visible_join_of_nul (h : IsName n) (hp : '\x00' ∈ p) : visible (join p n) = visible p := by
  obtain ⟨a, hjoin, ⟨rfl, -⟩ | rfl⟩ := join_eq (List.ne_nil_of_mem hp)
  · rw [hjoin n h, visible_append_of_nul hp]
  · rw [hjoin n h, List.append_cons, visible_append_of_nul hp]

theorem nul_mem_join (h : IsName n) : '\x00' ∈ join p n ↔ '\x00' ∈ p := by
  by_cases hnil : p = []
  · subst hnil
    rw [join_nil_left]
    simp [h.nul]
  · obtain ⟨a, hjoin, ⟨rfl, -⟩ | rfl⟩ := join_eq hnil
    · simp [hjoin n h, h.nul]
    · simp [hjoin n h, h.nul]

theorem visible_join (h : IsName n) (hp : '\x00' ∉ p) : visible (join p n) = join p n :=
  visible_of_no_nul fun hnul => hp ((nul_mem_join h).1 hnul)

/-! ## The directory of a name -/

theorem ne_slash_of_mem (h : '/' ∉ n) : ∀ c ∈ n.reverse, decide (c ≠ '/') = true := by
  intro c hc
  have hne : c ≠ '/' := by
    rintro rfl
    exact h (List.mem_reverse.1 hc)
  simpa using hne

/-- The part of a path up to its last slash. -/
theorem dropWhile_reverse_append_slash (h : '/' ∉ n) (a : Text) :
    (a ++ '/' :: n).reverse.dropWhile (· ≠ '/') = (a ++ ['/']).reverse := by
  rw [List.reverse_append, List.reverse_cons, List.append_assoc,
    List.dropWhile_append_of_pos (ne_slash_of_mem h)]
  simp

/-- A text is what remains of it without slashes at its end, and these slashes. -/
theorem strip_slashes (q : Text) :
    ∃ k, (q.reverse.dropWhile (· = '/')).reverse ++ List.replicate k '/' = q := by
  have hslashes : ∀ c ∈ (q.reverse.takeWhile (· = '/')).reverse, c = '/' := by
    intro c hc
    simpa using List.all_eq_true.1 List.all_takeWhile c (List.mem_reverse.1 hc)
  refine ⟨(q.reverse.takeWhile (· = '/')).reverse.length, ?_⟩
  rw [← List.eq_replicate_of_mem hslashes, ← List.reverse_append, List.takeWhile_append_dropWhile,
    List.reverse_reverse]

/-- The directory of a name is what stands before it. -/
theorem parent_append_slash (h : IsName n) (a : Text) : parent (a ++ '/' :: n) = parent (a ++ ['/']) := by
  unfold parent
  rw [dropWhile_reverse_append_slash h.slash, dropWhile_reverse_append_slash (by simp)]

/-- Of a path with a slash at its end, the slashes at the end are not in its directory, except that one
remains if there is nothing else. -/
theorem parent_slash (a : Text) :
    parent (a ++ ['/']) ≠ [] ∧ ∃ k, parent (a ++ ['/']) ++ List.replicate k '/' = a ++ ['/'] := by
  obtain ⟨k, hk⟩ := strip_slashes (a ++ ['/'])
  unfold parent
  rw [dropWhile_reverse_append_slash (by simp), List.reverse_reverse]
  dsimp only
  generalize ((a ++ ['/']).reverse.dropWhile (· = '/')).reverse = r at hk
  by_cases hr : r = []
  · subst hr
    cases k with
    | zero => simp at hk
    | succ k => exact ⟨by simp, k, by simpa [List.replicate_succ] using hk⟩
  · have hkept : (if r.isEmpty && !(a ++ ['/']).isEmpty then ['/'] else r) = r := if_neg (by simp [hr])
    rw [hkept]
    exact ⟨hr, k, hk⟩

/-- Slashes at the end of a path lead nowhere. -/
theorem components_visible_append_slashes (q : Text) (k : Nat) :
    components (visible (q ++ List.replicate k '/')) = components (visible q) := by
  by_cases hq : '\x00' ∈ q
  · rw [visible_append_of_nul hq]
  · have hno : ∀ j, visible (q ++ List.replicate j '/') = q ++ List.replicate j '/' := by
      intro j
      apply visible_of_no_nul
      simp [hq]
    rw [hno, visible_of_no_nul hq]
    induction k with
    | zero => simp
    | succ k ih =>
      rw [List.replicate_succ', ← List.append_assoc, components_append_slash, ih]
      simp [components, splitOn]

/-- The directory of a name is another text for the path that the name was put behind. -/
theorem parent_join (hp : p ≠ []) (h : IsName n) :
    parent (join p n) ≠ [] ∧ components (visible (parent (join p n))) = components (visible p) ∧
      isAbsolute (parent (join p n)) = isAbsolute p := by
  obtain ⟨a, hjoin, hp'⟩ := join_eq hp
  obtain ⟨hne, k, hk⟩ := parent_slash a
  rw [hjoin n h, parent_append_slash h]
  have hcomponents := components_visible_append_slashes (parent (a ++ ['/'])) k
  have habsolute := isAbsolute_append hne (List.replicate k '/')
  rw [hk] at hcomponents habsolute
  refine ⟨hne, ?_, ?_⟩
  · rw [← hcomponents]
    rcases hp' with ⟨rfl, -⟩ | rfl
    · exact components_visible_append_slashes p 1
    · rfl
  · rw [← habsolute]
    rcases hp' with ⟨rfl, ha⟩ | rfl
    · exact isAbsolute_append ha _
    · rfl

theorem parent_name (h : IsName n) : parent n = [] := by
  have hdrop : n.reverse.dropWhile (· ≠ '/') = [] := by
    rw [← List.append_nil n.reverse, List.dropWhile_append_of_pos (ne_slash_of_mem h.slash)]
    rfl
  unfold parent
  rw [hdrop]
  rfl

/-- All names in a directory have the same directory. -/
theorem parent_join_eq (h : IsName n) (h' : IsName m) : parent (join p n) = parent (join p m) := by
  by_cases hp : p = []
  · subst hp
    rw [join_nil_left, join_nil_left, parent_name h, parent_name h']
  · obtain ⟨a, hjoin, -⟩ := join_eq hp
    rw [hjoin n h, hjoin m h', parent_append_slash h, parent_append_slash h']

end Flatsheet.Path
