import Flatsheet.Proofs.Check.Splice

/-!
# `Proofs.Check.Interpolation` — the braces of an interpolation, a byte at a time

The stretches `#{…}` of a text are found by searching for the next opening and then for the brace that closes it.
Whether a byte lies in one can also be said by going over the bytes before it, with the number of braces that are
open (`openAfter`). Said in this way it can be compared between texts:

* `covers_iff`: a dollar sign lies in an interpolation exactly if braces are open before it
* `openAfter_le`: from a place on there are never more braces open than in the whole text
* `openAfter_codeMask`: the braces are those of the code mask where no brace is in a comment or a string
* `covers_of_span`: so an interpolation that begins behind a place is seen from that place
-/

namespace Flatsheet.Check

open Text Mask

variable {before before' : Option Char} {k k' i j pos : Nat} {c : Char} {t w r u : Text} {s : Span}

/-! ## Open braces -/

/-- The number of open braces of an interpolation behind a byte. -/
def openNext (before : Option Char) (k : Nat) (c : Char) : Nat :=
  if c = '{' then if k = 0 then if before = some '#' then 1 else 0 else k + 1
  else if c = '}' then k - 1
  else k

/-- The number of open braces of an interpolation behind a piece of text. -/
def openAfter (before : Option Char) (k : Nat) : Text → Nat
  | [] => k
  | c :: r => openAfter (some c) (openNext before k c) r

theorem openAfter_append (a b : Text) : openAfter before k (a ++ b) =
    openAfter (a.getLast?.or before) (openAfter before k a) b := by
  induction a generalizing before k with
  | nil => rfl
  | cons c r ih => rw [List.cons_append, openAfter, ih, openAfter, getLast?_cons_or]

theorem openAfter_concat (a : Text) (c : Char) : openAfter before k (a ++ [c]) =
    openNext (a.getLast?.or before) (openAfter before k a) c := by
  rw [openAfter_append]
  rfl

/-- Outside interpolation nothing but an opening makes a difference. -/
theorem openNext_zero (h : ¬ (before = some '#' ∧ c = '{')) : openNext before 0 c = 0 := by
  unfold openNext
  split
  · next hopen => simpa [hopen] using h
  · split <;> rfl

theorem openNext_of_other (h : c ≠ '{' ∧ c ≠ '}') : openNext before k c = k := by
  rw [openNext, if_neg h.1, if_neg h.2]

/-- Of the byte before only a hash sign matters. -/
theorem openNext_congr (h : before = some '#' ↔ before' = some '#') :
    openNext before k c = openNext before' k c := by
  unfold openNext
  simp only [h]

/-- The byte before matters for an opening brace only. -/
theorem openAfter_congr_before (h : w.head? ≠ some '{') : openAfter before k w = openAfter before' k w := by
  cases w with
  | nil => rfl
  | cons c r =>
    have hc : c ≠ '{' := by simpa using h
    simp only [openAfter, openNext, if_neg hc]

theorem openNext_le (hk : k ≤ k') (hbefore : before = some '#' → before' = some '#') :
    openNext before k c ≤ openNext before' k' c := by
  unfold openNext
  split
  · split
    · split
      · next hhash => split <;> simp [hbefore hhash]
      · exact Nat.zero_le _
    · have hpositive : k' ≠ 0 := by omega
      rw [if_neg hpositive]
      exact Nat.succ_le_succ hk
  · split
    · omega
    · exact hk

/-- **Where fewer braces are open, fewer stay open.** -/
theorem openAfter_le (hk : k ≤ k') (hbefore : before = some '#' → before' = some '#') (w : Text) :
    openAfter before k w ≤ openAfter before' k' w := by
  induction w generalizing before before' k k' with
  | nil => exact hk
  | cons c r ih => exact ih (openNext_le hk hbefore) id

/-! ## Covered bytes -/

/-- What the veil does to a byte that is no part of a mark: it blanks it if braces are open before it. -/
theorem getElem?_veil (hopen : before = some '#' → k = 0 → w.head? ≠ some '{') (hc : w[i]? = some c)
    (hother : c ≠ '#' ∧ c ≠ '{' ∧ c ≠ '\n') :
    (veil k w)[i]? = some (if openAfter before k (w.take i) = 0 then c else ' ') := by
  fun_induction veil k w generalizing before i with
  | case1 k => simp at hc
  | case2 r ih =>
    -- the two bytes of the mark
    rcases i with _ | _ | i
    · exact absurd (Option.some.inj hc).symm hother.1
    · exact absurd (Option.some.inj hc).symm hother.2.1
    · have hopened : some '{' = some '#' → 1 = 0 → r.head? ≠ some '{' := by
        intro hhash
        cases hhash
      exact ih hopened hc
  | case3 x r hash ih =>
    have hzero : openNext before 0 x = 0 := by
      apply openNext_zero
      rintro ⟨hhash, rfl⟩
      exact hopen hhash rfl rfl
    cases i with
    | zero => exact hc
    | succ i =>
      have hnext : some x = some '#' → 0 = 0 → r.head? ≠ some '{' := by
        intro hx _ hhead
        obtain ⟨r', rfl⟩ := List.head?_eq_some_iff.1 hhead
        exact hash r' (Option.some.inj hx) rfl
      rw [List.getElem?_cons_succ, List.take_succ_cons, openAfter, hzero]
      exact ih hnext hc
  | case4 k x r ih =>
    have hstep : openNext before (k + 1) x = if x = '{' then k + 2 else if x = '}' then k else k + 1 := rfl
    cases i with
    | zero =>
      obtain rfl := Option.some.inj hc
      simp [openAfter, hother.2.2]
    | succ i =>
      have hnext : some x = some '#' → (if x = '{' then k + 2 else if x = '}' then k else k + 1) = 0 →
          r.head? ≠ some '{' := by
        rintro ⟨⟩ hdepth
        simp at hdepth
      rw [List.getElem?_cons_succ, List.take_succ_cons, openAfter, hstep]
      exact ih hnext hc

/-- **A dollar sign lies in an interpolation exactly if braces are open before it.** -/
theorem covers_iff (h : w[i]? = some '$') :
    (interpolations w).any (·.covers i) = true ↔ 0 < openAfter none 0 (w.take i) := by
  have hveil : (veil 0 w)[i]? = some (if openAfter none 0 (w.take i) = 0 then '$' else ' ') :=
    getElem?_veil (by simp) h (by decide)
  have hblanked : (blankSpans (interpolations w) 0 w)[i]? =
      some (if (interpolations w).any (·.covers i) then ' ' else '$') := by
    rw [blankSpans, List.getElem?_map, List.getElem?_zipIdx, h]
    simp
  rw [interpolations, blankSpans_interpolations, hveil, ← interpolations] at hblanked
  by_cases hzero : openAfter none 0 (w.take i) = 0
  · simp_all
  · simp_all [Nat.pos_of_ne_zero]

/-! ## Where an interpolation begins -/

/-- Behind the brace that closes an interpolation no brace is open. -/
theorem openAfter_of_braceEnd (before : Option Char) (h : braceEnd? (k + 1) w = some i) :
    openAfter before (k + 1) (w.take i) = 0 ∧ (w.take i).getLast? = some '}' := by
  induction w generalizing before k i with
  | nil => cases h
  | cons c r ih =>
    -- a byte that does not close the interpolation is followed by the one that does
    have hmore : ∀ {m j : Nat}, braceEnd? (m + 1) r = some j → openNext before (k + 1) c = m + 1 →
        openAfter before (k + 1) ((c :: r).take (j + 1)) = 0 ∧
          ((c :: r).take (j + 1)).getLast? = some '}' := by
      intro m j hj hstep
      obtain ⟨hclosed, hlast⟩ := ih (some c) hj
      rw [List.take_succ_cons, openAfter, hstep, List.getLast?_cons, hlast]
      exact ⟨hclosed, rfl⟩
    rw [braceEnd?] at h
    split at h
    · next hc =>
      obtain ⟨j, hj, rfl⟩ := Option.map_eq_some_iff.1 h
      exact hmore hj (by simp [openNext, hc])
    · next hopen =>
      split at h
      · next hc =>
        split at h
        · next hone =>
          cases h
          have hzero : k = 0 := by omega
          simp [openAfter, openNext, hc, hzero]
        · next hmany =>
          obtain ⟨j, hj, rfl⟩ := Option.map_eq_some_iff.1 h
          obtain ⟨m, rfl⟩ : ∃ m, k = m + 1 := ⟨k - 1, by omega⟩
          exact hmore hj (by simp [openNext, hc])
      · next hclose =>
        obtain ⟨j, hj, rfl⟩ := Option.map_eq_some_iff.1 h
        exact hmore hj (by simp [openNext, hopen, hclose])

/-- **Where an interpolation begins there is a hash sign, and no brace is open.** -/
theorem openAfter_start (hs : s ∈ interpolationsFrom u.length w) (hzero : openAfter none 0 u = 0)
    (hhash : u.getLast? = some '#' → w.head? ≠ some '{') :
    openAfter none 0 ((u ++ w).take s.start) = 0 ∧ (u ++ w)[s.start]? = some '#' := by
  generalize hpos : u.length = pos at hs
  fun_induction interpolationsFrom pos w generalizing u with
  | case1 => cases hs
  | case2 pos c r hash hend =>
    obtain rfl := List.mem_singleton.1 hs
    simp only [Bool.and_eq_true, decide_eq_true_eq] at hash
    subst hpos
    rw [List.take_left, List.getElem?_append_right (Nat.le_refl _), Nat.sub_self, hash.1]
    exact ⟨hzero, rfl⟩
  | case3 pos c r hash n hend ih =>
    simp only [Bool.and_eq_true, decide_eq_true_eq] at hash
    obtain ⟨rfl, hhead⟩ := hash
    subst hpos
    rcases List.mem_cons.1 hs with rfl | hs
    · rw [List.take_left, List.getElem?_append_right (Nat.le_refl _), Nat.sub_self]
      exact ⟨hzero, rfl⟩
    · have hle : n ≤ r.length := le_length_of_braceEnd hend
      obtain ⟨q, rfl⟩ := List.head?_eq_some_iff.1 hhead
      rw [braceEnd?, if_pos rfl] at hend
      obtain ⟨m, hm, rfl⟩ := Option.map_eq_some_iff.1 hend
      obtain ⟨hclosed, hlast⟩ := openAfter_of_braceEnd (some '{') hm
      -- the search goes on behind the brace that closes the interpolation
      have hcut : u ++ '#' :: '{' :: q = (u ++ '#' :: '{' :: q.take m) ++ q.drop m := by
        rw [List.append_assoc, List.cons_append, List.cons_append, List.take_append_drop]
      have hlength : (u ++ '#' :: '{' :: q.take m).length = u.length + 1 + (m + 1) := by
        rw [List.length_cons] at hle
        simp only [List.length_append, List.length_cons, List.length_take]
        omega
      have hend : (u ++ '#' :: '{' :: q.take m).getLast? = some '}' := by
        rw [List.getLast?_append, List.getLast?_cons, List.getLast?_cons, hlast]
        rfl
      rw [hcut]
      apply ih _ _ hlength hs
      · rw [openAfter_append, hzero, openAfter, openNext_zero (by simp)]
        exact hclosed
      · rw [hend]
        simp
  | case4 pos c r hash ih =>
    subst hpos
    have hcut : u ++ c :: r = (u ++ [c]) ++ r := by simp
    rw [hcut]
    apply ih _ _ (by simp) hs
    · rw [openAfter_concat, hzero, Option.or_none]
      apply openNext_zero
      rintro ⟨hlast, rfl⟩
      exact hhash hlast rfl
    · rw [List.getLast?_concat]
      rintro ⟨⟩ hhead
      simp [hhead] at hash

/-- **An interpolation that begins behind a place is seen from that place**: the bytes before the place make no
difference. -/
theorem open_of_span (hs : s ∈ interpolations w) (hcovers : s.covers i = true) (hi : w[i]? = some '$')
    (hj : j ≤ s.start) : 0 < openAfter none 0 (slice w j i) := by
  have hwhole : 0 < openAfter none 0 (w.take i) := (covers_iff hi).1 (List.any_eq_true.2 ⟨s, hs, hcovers⟩)
  rw [Span.covers_iff] at hcovers
  obtain ⟨hzero, hhash⟩ : openAfter none 0 (w.take s.start) = 0 ∧ w[s.start]? = some '#' :=
    openAfter_start (u := []) hs rfl (by simp)
  -- from the place on no more braces are open at the hash sign than in the whole text
  have hfewer : openAfter none 0 (slice w j s.start) ≤ 0 := by
    have hnone : none = some '#' → (w.take j).getLast?.or none = some '#' := by
      intro hhash
      cases hhash
    calc openAfter none 0 (slice w j s.start)
        ≤ openAfter ((w.take j).getLast?.or none) (openAfter none 0 (w.take j)) (slice w j s.start) :=
          openAfter_le (Nat.zero_le _) hnone _
      _ = openAfter none 0 (w.take s.start) := by rw [← openAfter_append, take_append_slice hj]
      _ ≤ 0 := Nat.le_of_eq hzero
  have hrest : (slice w s.start i).head? ≠ some '{' := by
    intro hhead
    rw [slice, List.head?_take, List.head?_drop, hhash] at hhead
    split at hhead <;> cases hhead
  rw [← take_append_slice hcovers.1, openAfter_append, hzero] at hwhole
  rw [slice_append hj hcovers.1, openAfter_append, Nat.le_zero.1 hfewer]
  exact Nat.lt_of_lt_of_eq hwhole (openAfter_congr_before hrest)

/-! ## Braces of the code -/

/-- **No brace of a stretch is in a comment or a string.** -/
def BracesInCode (t : Text) (i j : Nat) : Prop :=
  ∀ k, k < j → i ≤ k → t[k]? = some '{' ∨ t[k]? = some '}' → (codeMask t)[k]? = t[k]?

instance (t : Text) (i j : Nat) : Decidable (BracesInCode t i j) :=
  inferInstanceAs (Decidable (∀ k, k < j → _))

/-- The hash sign before a brace of the code is code. -/
theorem hash_of_brace (hbrace : (codeMask t)[i + 1]? = some '{') (hhash : t[i]? = some '#') :
    (codeMask t)[i]? = some '#' := by
  have hmask := getElem?_mask .commentsAndStrings hhash
  split at hmask
  · -- were it blanked, the text would have come to rest behind it
    have hrests : Rests (t.take (i + 1)) := by
      apply rests_of_masked hbrace rfl (by decide)
      intro x hx
      have hblank : some ' ' = some x := hmask.symm.trans hx
      cases hblank
      decide
    obtain ⟨hi, hget⟩ := List.getElem?_eq_some_iff.1 hhash
    have hlast : (t.take (i + 1)).getLast? = some '#' := by
      rw [List.take_succ_eq_append_getElem hi, List.getLast?_concat, hget]
    exact absurd hlast hrests.hash
  · exact hmask

/-- One byte of a stretch without such braces, and of its mask. -/
theorem openNext_codeMask {x y : Char} (hx : (codeMask t)[i]? = some x) (hy : t[i]? = some y)
    (hbrace : y = '{' ∨ y = '}' → x = y) (hbefore : x = '{' → (before = some '#' ↔ before' = some '#')) :
    openNext before k x = openNext before' k y := by
  by_cases hopen : x = '{'
  · have hsame : x = y := Option.some.inj ((getElem?_of_run hx (by rw [hopen]; decide)).symm.trans hy)
    rw [← hsame]
    exact openNext_congr (hbefore hopen)
  · by_cases hclose : x = '}'
    · have hsame : x = y := Option.some.inj ((getElem?_of_run hx (by rw [hclose]; decide)).symm.trans hy)
      rw [← hsame, hclose]
      rfl
    · have hother : y ≠ '{' ∧ y ≠ '}' := by
        refine ⟨?_, ?_⟩
        · rintro rfl
          exact hopen (hbrace (.inl rfl))
        · rintro rfl
          exact hclose (hbrace (.inr rfl))
      rw [openNext_of_other ⟨hopen, hclose⟩, openNext_of_other hother]

/-- The last byte of a stretch. -/
theorem getLast?_stretch (w : Text) (i n : Nat) {x : Char} (hx : w[i + n]? = some x) :
    ((w.drop i).take (n + 1)).getLast? = some x := by
  rw [List.getLast?_take, if_neg (Nat.succ_ne_zero n), Nat.add_sub_cancel, List.getElem?_drop, hx]
  rfl

/-- **Where no brace is in a comment or a string, the open braces are those of the code.** -/
theorem openAfter_codeMask (h : BracesInCode t i j) :
    openAfter none 0 (slice (codeMask t) i j) = openAfter none 0 (slice t i j) := by
  suffices hall : ∀ n, i + n ≤ j →
      openAfter none 0 (((codeMask t).drop i).take n) = openAfter none 0 ((t.drop i).take n) by
    by_cases hij : i ≤ j
    · exact hall _ (Nat.le_of_eq (Nat.add_sub_cancel' hij))
    · rw [slice, slice, Nat.sub_eq_zero_of_le (Nat.le_of_not_le hij)]
      rfl
  intro n
  induction n with
  | zero => exact fun _ => rfl
  | succ n ih =>
    intro hn
    rw [List.take_add_one, List.take_add_one, List.getElem?_drop, List.getElem?_drop]
    by_cases hlt : i + n < t.length
    · have hlt' : i + n < (codeMask t).length := by rwa [length_codeMask]
      have hy := List.getElem?_eq_getElem hlt
      have hx := List.getElem?_eq_getElem hlt'
      rw [hx, hy, Option.toList_some, Option.toList_some, openAfter_concat, openAfter_concat, ih (by omega)]
      apply openNext_codeMask hx hy
      · intro hbrace
        have hshown := h (i + n) (by omega) (Nat.le_add_right i n) (by rw [hy]; simpa using hbrace)
        rw [hx, hy] at hshown
        exact Option.some.inj hshown
      · intro hopen
        rw [hopen] at hx
        -- a hash sign before the brace is code, and in the stretch
        cases n with
        | zero => simp
        | succ m =>
          have hin : i + m < t.length := by omega
          have hin' : i + m < (codeMask t).length := by omega
          have hraw := List.getElem?_eq_getElem hin
          have hmask := List.getElem?_eq_getElem hin'
          rw [getLast?_stretch _ _ _ hraw, getLast?_stretch _ _ _ hmask, Option.or_none, Option.or_none, ← hraw,
            ← hmask]
          constructor
          · intro hhash
            exact getElem?_of_run hhash (by decide)
          · intro hhash
            exact hash_of_brace hx hhash
    · have hout : t[i + n]? = none := List.getElem?_eq_none (Nat.le_of_not_lt hlt)
      have hout' : (codeMask t)[i + n]? = none := List.getElem?_eq_none (by rw [length_codeMask]; omega)
      rw [hout, hout', Option.toList_none, List.append_nil, List.append_nil]
      exact ih (by omega)

/-- So an interpolation of the code is one of the text. -/
theorem covers_codeMask (h : BracesInCode t 0 i) (hi : (codeMask t)[i]? = some '$') :
    (interpolations t).any (·.covers i) = (interpolations (codeMask t)).any (·.covers i) := by
  have hraw : t[i]? = some '$' := getElem?_of_run hi (by decide)
  have hsame : openAfter none 0 ((codeMask t).take i) = openAfter none 0 (t.take i) := openAfter_codeMask h
  rw [Bool.eq_iff_iff, covers_iff hraw, covers_iff hi, hsame]

/-- **An interpolation of the code that begins behind a place is seen in the text from that place.** -/
theorem covers_of_span (hs : s ∈ interpolations (codeMask t)) (hcovers : s.covers i = true)
    (hi : (codeMask t)[i]? = some '$') (hj : j ≤ s.start) (h : BracesInCode t j i) :
    0 < openAfter none 0 (slice t j i) := by
  rw [← openAfter_codeMask h]
  exact open_of_span hs hcovers hi hj

end Flatsheet.Check
