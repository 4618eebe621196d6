import Flatsheet.Proofs.Text.Mask

/-!
# `Proofs.Text.Loss` — a text that loses a blank

A blank at the margin of a line is one that the text begins with, or one with the end of its line behind it.
Here is what does not change when a text loses such a blank (`Loses`): the bytes that are not blank, those of
each stretch (`Loses.slice`), and the masks, which lose the blank at the same offset (`Loses.mask`).
-/

namespace Flatsheet.Text

variable {n i j k : Nat} {p : Char → Bool} {t t' v r word : Text} {x : Char}

/-! ## Words before a blank -/

/-- The text does not go on with a byte that is not blank. -/
def Stops (t : Text) : Prop := ∀ c, t.head? = some c → isBlank c = true

/-- The line is at its end. -/
def Ends (t : Text) : Prop := t = [] ∨ ∃ r, t = '\n' :: r

theorem stops_nil : Stops [] := nofun

theorem stops_cons (blank : isBlank x = true) (r : Text) : Stops (x :: r) := by
  intro c hc
  cases hc
  exact blank

theorem Ends.stops (h : Ends t) : Stops t := by
  rcases h with rfl | ⟨r, rfl⟩
  · exact stops_nil
  · exact stops_cons rfl r

theorem Ends.take (h : Ends t) (n : Nat) : Ends (t.take n) := by
  rcases h with rfl | ⟨r, rfl⟩
  · exact .inl List.take_nil
  · cases n with
    | zero => exact .inl rfl
    | succ n => exact .inr ⟨r.take n, rfl⟩

/-- The bytes of a text that are not blank. -/
def bare (t : Text) : Text := t.filter fun c => !isBlank c

theorem bare_append (a b : Text) : bare (a ++ b) = bare a ++ bare b := List.filter_append ..

theorem bare_cons_of_blank (blank : isBlank x = true) (r : Text) : bare (x :: r) = bare r := by
  simp [bare, blank]

theorem bare_of_blanks (h : ∀ c ∈ t, isBlank c = true) : bare t = [] := by
  unfold bare
  rw [List.filter_eq_nil_iff]
  intro c hc
  simp [h c hc]

/-- Bytes of a class go as far as the first byte that is not of it. -/
theorem takeWhile_stretch (hv : ∀ y ∈ v, p y = true) (hr : ∀ y, r.head? = some y → p y = false) :
    (v ++ r).takeWhile p = v := by
  rw [List.takeWhile_append_of_pos hv]
  cases r with
  | nil => rw [List.takeWhile_nil, List.append_nil]
  | cons y r => rw [List.takeWhile_cons_of_neg (Bool.eq_false_iff.1 (hr y rfl)), List.append_nil]

/-- A word is a text without blanks. -/
def IsWord (w : Text) : Prop := ∀ c ∈ w, isBlank c = false

instance (w : Text) : Decidable (IsWord w) := List.decidableBAll (isBlank · = false) w

/-- **A word that stands before a blank ends before it.** -/
theorem startsWith_append_of_stops (hword : IsWord word) (h : Stops r) (v : Text) :
    startsWith (v ++ r) word = startsWith v word := by
  unfold startsWith
  induction v generalizing word with
  | nil =>
    cases word with
    | nil => simp
    | cons c w =>
      have hc : isBlank c = false := hword c List.mem_cons_self
      cases r with
      | nil => rfl
      | cons y r =>
        have hy : isBlank y = true := h y rfl
        have hne : c ≠ y := by
          rintro rfl
          rw [hc] at hy
          cases hy
        simp [List.isPrefixOf, hne]
  | cons y v ih =>
    cases word with
    | nil => simp
    | cons c w =>
      have hw : IsWord w := fun d hd => hword d (List.mem_cons_of_mem c hd)
      rw [List.cons_append, List.isPrefixOf_cons_cons, List.isPrefixOf_cons_cons, ih hw]

/-- So does a run of bytes of a class without blanks. -/
theorem takeWhile_append_of_stops (hp : ∀ c, isBlank c = true → p c = false) (h : Stops r) (v : Text) :
    (v ++ r).takeWhile p = v.takeWhile p := by
  induction v with
  | nil =>
    cases r with
    | nil => rfl
    | cons y r => simp [hp y (h y rfl)]
  | cons c v ih => rw [List.cons_append, List.takeWhile_cons, List.takeWhile_cons, ih]

/-- The byte ahead is the same whatever the text stops at, unless it is blank. -/
theorem head?_append_of_stops {z : Char} (hz : isBlank z = false) (h : Stops r) :
    (v ++ r).head? = some z ↔ v.head? = some z := by
  cases v with
  | nil =>
    constructor
    · intro hr
      rw [h z hr] at hz
      cases hz
    · exact nofun
  | cons y v => rfl

/-! ## The loss -/

/-- **The text loses the blank at offset `n`**, at the margin of its line. -/
inductive Loses (n : Nat) : Text → Text → Prop
  | intro {a : Text} {x : Char} {b : Text} (length : a.length = n) (blank : isBlank x = true)
      (margin : a = [] ∨ Ends b) : Loses n (a ++ x :: b) (a ++ b)

/-- Where an offset is found after the loss of the byte at `n`. -/
def squeeze (n k : Nat) : Nat := if n < k then k - 1 else k

/-- The last byte of a text. -/
theorem Loses.stop {a : Text} (length : a.length = n) (blank : isBlank x = true) : Loses n (a ++ [x]) a := by
  have hloss := Loses.intro length blank (.inr (.inl rfl))
  rw [List.append_nil] at hloss
  exact hloss

theorem Loses.bare_eq (h : Loses n t t') : bare t' = bare t := by
  obtain ⟨-, blank, -⟩ := h
  rw [bare_append, bare_append, bare_cons_of_blank blank]

/-- **A stretch loses the blank too, or stays the same.** -/
theorem Loses.slice (h : Loses n t t') (i j : Nat) : slice t i j = slice t' (squeeze n i) (squeeze n j) ∨
    ∃ k, Loses k (slice t i j) (slice t' (squeeze n i) (squeeze n j)) := by
  obtain @⟨a, x, b, length, blank, margin⟩ := h
  subst length
  unfold Text.slice squeeze
  by_cases hi : a.length < i
  · -- the stretch begins behind the blank
    left
    obtain ⟨m, rfl⟩ : ∃ m, i = a.length + (m + 1) := ⟨i - a.length - 1, by omega⟩
    rw [if_pos hi, List.drop_length_add_append, List.drop_succ_cons, Nat.add_sub_assoc (Nat.le_add_left 1 m),
      Nat.add_sub_cancel, List.drop_length_add_append]
    split
    · congr 1
      omega
    · rw [Nat.sub_eq_zero_of_le (by omega), Nat.sub_eq_zero_of_le (by omega)]
  · by_cases hj : a.length < j
    · -- the blank is in it
      right
      obtain ⟨m, rfl⟩ : ∃ m, j = a.length + (m + 1) := ⟨j - a.length - 1, by omega⟩
      have hle : i ≤ a.length := by omega
      have hlength : (a.drop i).length = a.length - i := List.length_drop
      have hlong : a.length + (m + 1) - i = (a.drop i).length + (m + 1) := by omega
      have hshort : a.length + m - i = (a.drop i).length + m := by omega
      rw [if_neg hi, if_pos hj, Nat.add_sub_assoc (Nat.le_add_left 1 m), Nat.add_sub_cancel, List.drop_append_of_le_length hle,
        List.drop_append_of_le_length hle, hlong, hshort, List.take_length_add_append,
        List.take_length_add_append, List.take_succ_cons]
      refine ⟨(a.drop i).length, .intro rfl blank ?_⟩
      rcases margin with rfl | ends
      · exact .inl List.drop_nil
      · exact .inr (ends.take m)
    · left
      -- the stretch ends before the blank
      by_cases hle : i ≤ a.length
      · rw [if_neg hi, if_neg hj, List.drop_append_of_le_length hle, List.drop_append_of_le_length hle,
          List.take_append_of_le_length (by rw [List.length_drop]; omega),
          List.take_append_of_le_length (by rw [List.length_drop]; omega)]
      · omega

theorem Loses.bare_slice (h : Loses n t t') (i j : Nat) :
    bare (Text.slice t' (squeeze n i) (squeeze n j)) = bare (Text.slice t i j) := by
  rcases h.slice i j with heq | ⟨k, hloss⟩
  · rw [heq]
  · exact hloss.bare_eq

/-! ## Masks -/

/-- A blank byte of the mask at the place of a blank. -/
theorem masked_blank (blank : isBlank x = true) (b : Bool) : isBlank (if b then ' ' else x) = true := by
  cases b
  · exact blank
  · rfl

/-- **A mask loses the blank that its text loses.** -/
theorem Loses.mask (mode : Mask.Mode) (h : Loses n t t') : Loses n (mask mode t) (mask mode t') := by
  obtain @⟨a, x, b, length, blank, margin⟩ := h
  have hinert := Mask.inert_of_blank blank
  rcases margin with rfl | rfl | ⟨b, rfl⟩
  · -- at the start of the text
    have hafter : Mask.run mode (some x) .code b = Mask.run mode none .code b := by
      apply Mask.run_congr_before
      intro _
      have hcolon : x ≠ ':' := by
        rintro rfl
        cases blank
      simpa using hcolon
    show Loses n (Mask.run mode none .code (x :: b)) (Mask.run mode none .code b)
    rw [Mask.run, Mask.next_code_of_blank blank, hafter]
    exact .intro (a := []) length (masked_blank blank _) (.inl rfl)
  · -- at its end
    have hpiece : Mask.piece mode none .code (some x) a = Mask.piece mode none .code none a :=
      Mask.piece_of_inert Mask.quoted_code hinert Mask.inert_none a
    rw [List.append_nil, Text.mask, Text.mask, Mask.run_eq_piece a, Mask.run_append, List.head?_cons, hpiece]
    exact .stop ((Mask.length_piece a).trans length) (masked_blank blank _)
  · -- at the end of a line
    have hpiece : Mask.piece mode none .code (some x) a = Mask.piece mode none .code (some '\n') a :=
      Mask.piece_of_inert Mask.quoted_code hinert (Mask.inert_of_blank rfl) a
    have hstate : ∀ p p' z, ((Mask.State.after none .code (some x) a).next p x (some '\n')).next p' '\n' z =
        (Mask.State.after none .code (some '\n') a).next p '\n' z := by
      intro p p' z
      by_cases stays : x = '\n'
      · subst stays
        exact Mask.after_newlines a _ _ _
      · rw [Mask.after_blank blank stays]
        exact Mask.next_congr_before (by simp)
    rw [Text.mask, Text.mask, Mask.run_append, Mask.run_append, Mask.run, Mask.run_newline,
      Mask.run_newline, List.head?_cons, List.head?_cons, hpiece, hstate]
    exact .intro ((Mask.length_piece a).trans length) (masked_blank blank _) (.inr (.inr ⟨_, rfl⟩))

end Flatsheet.Text
