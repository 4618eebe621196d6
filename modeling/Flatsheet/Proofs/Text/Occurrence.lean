import Flatsheet.Text.Basic
import Mathlib.Data.List.Infix

/-!
# `Proofs.Text.Occurrence` — how often a word occurs in a text

A word occurs in two texts together wherever it occurs in one of them, and moreover across the seam between
them, where the first text ends with a beginning of the word and the second one begins with the rest
(`Crosses`). So a text has at least as many occurrences as its parts (`occurrences_append_le`), and no more if
the word does not cross the seam (`occurrences_append`): for instance if a byte that is not in the word is right
before or behind the seam. A word whose first byte is in it only once crosses a seam once at most
(`occurrences_append_le_add_seam`).
-/

namespace Flatsheet.Text

variable {word a b t : Text} {c x y : Char}

/-- **The number of places of a text where the word begins.** -/
def occurrences (word : Text) : Text → Nat
  | [] => 0
  | c :: r => (if startsWith (c :: r) word then 1 else 0) + occurrences word r

/-- **The word crosses the seam of two texts**: the first one ends with a part of it, and the second one begins
with the rest. -/
def Crosses (word a b : Text) : Prop := ∃ u v, u ≠ [] ∧ v ≠ [] ∧ u ++ v = word ∧ u <:+ a ∧ v <+: b

theorem Crosses.cons (h : Crosses word a b) : Crosses word (c :: a) b := by
  obtain ⟨u, v, hu, hv, hword, hsuffix, hprefix⟩ := h
  exact ⟨u, v, hu, hv, hword, hsuffix.trans (List.suffix_cons c a), hprefix⟩

/-- A word that begins in two texts together but not in the first one alone goes over the whole of that. -/
theorem exists_rest_of_startsWith (h : startsWith (a ++ b) word = true) (hends : startsWith a word = false) :
    ∃ v, v ≠ [] ∧ a ++ v = word ∧ v <+: b := by
  rw [startsWith, List.isPrefixOf_iff_prefix] at h
  rw [startsWith, Bool.eq_false_iff, ne_eq, List.isPrefixOf_iff_prefix] at hends
  obtain ⟨r, hr⟩ := h
  rcases List.append_eq_append_iff.1 hr with ⟨u, hu, -⟩ | ⟨v, hv, hbehind⟩
  · exact absurd ⟨u, hu.symm⟩ hends
  · refine ⟨v, ?_, hv.symm, r, hbehind.symm⟩
    rintro rfl
    rw [List.append_nil] at hv
    exact hends (hv ▸ List.prefix_refl a)

/-- A text in which the word begins, and which goes on in another one. -/
theorem startsWith_append (ha : a ≠ []) (h : ¬ Crosses word a b) :
    startsWith (a ++ b) word = startsWith a word := by
  rw [Bool.eq_iff_iff]
  constructor
  · intro hbegins
    by_contra hends
    obtain ⟨v, hv, hword, hprefix⟩ := exists_rest_of_startsWith hbegins (Bool.eq_false_iff.2 hends)
    exact h ⟨a, v, ha, hv, hword, List.suffix_refl a, hprefix⟩
  · rw [startsWith, startsWith, List.isPrefixOf_iff_prefix, List.isPrefixOf_iff_prefix]
    exact fun hprefix => hprefix.trans (List.prefix_append a b)

/-- **The occurrences in two texts together**, if the word does not cross the seam. -/
theorem occurrences_append (h : ¬ Crosses word a b) :
    occurrences word (a ++ b) = occurrences word a + occurrences word b := by
  induction a with
  | nil => exact (Nat.zero_add _).symm
  | cons c r ih =>
    have hbegins := startsWith_append (List.cons_ne_nil c r) h
    rw [List.cons_append] at hbegins ⊢
    rw [occurrences, occurrences, hbegins, ih fun hcrosses => h hcrosses.cons, Nat.add_assoc]

/-- **No occurrence is lost** where two texts are put together. -/
theorem occurrences_append_le (word a b : Text) :
    occurrences word a + occurrences word b ≤ occurrences word (a ++ b) := by
  induction a with
  | nil => exact Nat.le_of_eq (Nat.zero_add _)
  | cons c r ih =>
    have hbegins : startsWith (c :: r) word = true → startsWith (c :: r ++ b) word = true := by
      rw [startsWith, startsWith, List.isPrefixOf_iff_prefix, List.isPrefixOf_iff_prefix]
      exact fun hprefix => hprefix.trans (List.prefix_append _ b)
    rw [List.cons_append] at hbegins ⊢
    rw [occurrences, occurrences]
    split
    · next hword =>
      rw [if_pos (hbegins hword)]
      omega
    · omega

/-! ## Seams -/

/-- The bytes on both sides of the seam are in the word. -/
theorem Crosses.mem (h : Crosses word a b) :
    (∃ x ∈ word, a.getLast? = some x) ∧ ∃ y ∈ word, b.head? = some y := by
  obtain ⟨u, v, hu, hv, rfl, ⟨p, rfl⟩, q, rfl⟩ := h
  obtain ⟨u, x, rfl⟩ := List.eq_nil_or_concat u |>.resolve_left hu
  obtain ⟨y, v, rfl⟩ := List.exists_cons_of_ne_nil hv
  refine ⟨⟨x, ?_, ?_⟩, y, ?_, rfl⟩
  · simp
  · simp
  · simp

/-- **Behind the text the word does not go on**: the text is empty, or its last byte is not in the word. -/
def Shut (word t : Text) : Prop := ∀ x, t.getLast? = some x → x ∉ word

theorem shut_nil : Shut word [] := nofun

theorem shut_concat (hc : c ∉ word) (t : Text) : Shut word (t ++ [c]) := by
  intro x hx
  rw [List.getLast?_concat] at hx
  cases hx
  exact hc

theorem Shut.append (ha : Shut word a) (hb : Shut word b) : Shut word (a ++ b) := by
  intro x hx
  rw [List.getLast?_append] at hx
  rcases Option.or_eq_some_iff.1 hx with hx | ⟨-, hx⟩
  · exact hb x hx
  · exact ha x hx

theorem Shut.occurrences_append (ha : Shut word a) (b : Text) :
    occurrences word (a ++ b) = occurrences word a + occurrences word b := by
  apply Text.occurrences_append
  intro hcrosses
  obtain ⟨⟨x, hx, hlast⟩, -⟩ := hcrosses.mem
  exact ha x hlast hx

/-- A byte that is not in the word keeps what is before it apart from what is behind it. -/
theorem occurrences_append_cons (hc : c ∉ word) (a b : Text) :
    occurrences word (a ++ c :: b) = occurrences word a + occurrences word (c :: b) := by
  apply occurrences_append
  intro hcrosses
  obtain ⟨-, y, hy, hhead⟩ := hcrosses.mem
  cases hhead
  exact hc hy

theorem occurrences_cons_of_ne (h : c ≠ x) (t : Text) : occurrences (x :: word) (c :: t) = occurrences (x :: word) t := by
  have hhere : startsWith (c :: t) (x :: word) = false := by
    simp [startsWith, List.isPrefixOf, Ne.symm h]
  rw [occurrences, hhere]
  exact Nat.zero_add _

theorem occurrences_eq_zero (h : x ∉ t) : occurrences (x :: word) t = 0 := by
  induction t with
  | nil => rfl
  | cons c r ih =>
    rw [List.mem_cons, not_or] at h
    rw [occurrences_cons_of_ne (Ne.symm h.1), ih h.2]

/-- A text begins with the rest of a word of which some bytes are before it. -/
def resumes (word t : Text) : Bool := word.tail.tails.any fun v => !v.isEmpty && startsWith t v

theorem Crosses.resumes (h : Crosses word a b) : resumes word b = true := by
  obtain ⟨u, v, hu, hv, rfl, -, hprefix⟩ := h
  obtain ⟨x, u, rfl⟩ := List.exists_cons_of_ne_nil hu
  refine List.any_eq_true.2 ⟨v, ?_, ?_⟩
  · exact (List.mem_tails _ _).2 (List.suffix_append u v)
  · rw [Bool.and_eq_true, startsWith, List.isPrefixOf_iff_prefix]
    exact ⟨by simpa using hv, hprefix⟩

theorem resumes_cons (hc : c ∉ word.tail) (t : Text) : resumes word (c :: t) = false := by
  rw [resumes, List.any_eq_false]
  intro v hv
  have hsuffix := (List.mem_tails _ _).1 hv
  cases v with
  | nil => simp
  | cons y v =>
    have hne : y ≠ c := by
      rintro rfl
      exact hc (hsuffix.subset List.mem_cons_self)
    simp [startsWith, List.isPrefixOf, hne]

theorem resumes_append_cons (hc : c ∉ word) (a b : Text) : resumes word (a ++ c :: b) = resumes word a := by
  rw [resumes, resumes, Bool.eq_iff_iff, List.any_eq_true, List.any_eq_true]
  apply exists_congr
  intro v
  refine and_congr_right fun hv => ?_
  have hmem : c ∉ v := fun h => hc (List.mem_of_mem_tail (((List.mem_tails _ _).1 hv).subset h))
  cases a with
  | nil =>
    cases v with
    | nil => rfl
    | cons y v =>
      rw [List.mem_cons, not_or] at hmem
      simp [startsWith, List.isPrefixOf, Ne.symm hmem.1]
  | cons z a =>
    have hcrosses : ¬ Crosses v (z :: a) (c :: b) := by
      intro h
      obtain ⟨-, y, hy, hhead⟩ := h.mem
      cases hhead
      exact hmem hy
    rw [startsWith_append (List.cons_ne_nil z a) hcrosses]

/-- How often a word can cross the seam before a text. -/
def seam (word t : Text) : Nat := if resumes word t then 1 else 0

/-- **A word whose first byte does not come again in it crosses a seam at most once.** -/
theorem occurrences_append_le_add_seam (hx : x ∉ word) (a b : Text) :
    occurrences (x :: word) (a ++ b) ≤
      occurrences (x :: word) a + occurrences (x :: word) b + seam (x :: word) b := by
  induction a with
  | nil =>
    rw [List.nil_append, occurrences, Nat.zero_add]
    exact Nat.le_add_right _ _
  | cons c r ih =>
    by_cases hover : startsWith (c :: r ++ b) (x :: word) = true ∧ startsWith (c :: r) (x :: word) = false
    · obtain ⟨hbegins, hends⟩ := hover
      obtain ⟨v, hv, hword, hprefix⟩ := exists_rest_of_startsWith hbegins hends
      have hseam : seam (x :: word) b = 1 :=
        if_pos (Crosses.resumes ⟨c :: r, v, List.cons_ne_nil c r, hv, hword, List.suffix_refl _, hprefix⟩)
      -- the word goes over the whole of the first text, so it begins nowhere further on in it
      have hmem : x ∉ r := by
        obtain ⟨rfl, hrest⟩ := List.cons.inj hword
        exact fun h => hx (hrest ▸ List.mem_append_left v h)
      have hrest : occurrences (x :: word) (r ++ b) = occurrences (x :: word) r + occurrences (x :: word) b := by
        apply occurrences_append
        rintro ⟨u, v, hu, -, hword, hsuffix, -⟩
        obtain ⟨y, u, rfl⟩ := List.exists_cons_of_ne_nil hu
        obtain ⟨rfl, -⟩ := List.cons.inj hword
        exact hmem (hsuffix.subset List.mem_cons_self)
      rw [List.cons_append] at hbegins ⊢
      rw [occurrences, occurrences, if_pos hbegins, hrest, hends, hseam]
      simp only [Bool.false_eq_true, if_false]
      omega
    · have hle : (if startsWith (c :: r ++ b) (x :: word) = true then 1 else 0) ≤
          if startsWith (c :: r) (x :: word) = true then 1 else 0 := by
        split
        · next hbegins =>
          rw [if_pos (by_contra fun hends => hover ⟨hbegins, Bool.eq_false_iff.2 hends⟩)]
        · exact Nat.zero_le _
      rw [List.cons_append] at hle ⊢
      rw [occurrences, occurrences]
      omega

/-- A word of two bytes crosses a seam between them. -/
theorem crosses_pair : Crosses [x, y] a b ↔ a.getLast? = some x ∧ b.head? = some y := by
  constructor
  · rintro ⟨u, v, hu, hv, hword, ⟨p, rfl⟩, q, rfl⟩
    obtain ⟨rfl, rfl⟩ : u = [x] ∧ v = [y] := by
      cases u with
      | nil => exact absurd rfl hu
      | cons z u =>
        obtain ⟨rfl, hrest⟩ := List.cons.inj hword
        rcases List.append_eq_singleton_iff.1 hrest with ⟨rfl, rfl⟩ | ⟨-, hnil⟩
        · exact ⟨rfl, rfl⟩
        · exact absurd hnil hv
    exact ⟨List.getLast?_concat, rfl⟩
  · rintro ⟨hlast, hhead⟩
    obtain ⟨p, rfl⟩ := List.getLast?_eq_some_iff.1 hlast
    obtain ⟨q, rfl⟩ := List.head?_eq_some_iff.1 hhead
    exact ⟨[x], [y], List.cons_ne_nil _ _, List.cons_ne_nil _ _, rfl, List.suffix_append _ _, q, rfl⟩

end Flatsheet.Text
