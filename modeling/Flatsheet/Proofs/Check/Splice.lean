import Flatsheet.Proofs.Check.Braces
import Flatsheet.Proofs.Text.Cutting

/-!
# `Proofs.Check.Splice` — exchanging pieces of a sheet without disturbing its blocks

A piece is whole if nothing is open at its end and each of its braces has its partner in it (`Whole`). Where
a whole piece stands between texts that it joins, another whole piece can stand: the braces of the sheet pair
up as before (`balanced_splice`). The passes make such exchanges at many places at once. They work from the
last place to the first, so at each exchange the text before it is still that of the sheet at the start.

* `Exchange`, `balanced_replaceSpans`: pieces put in place of stretches
* `Erasure`, `balanced_eraseStatements`: statements cut out, with the lines that they leave blank
-/

namespace Flatsheet.Check

open Text Style Mask

variable {a b p q t t' w : Text} {s : Span} {n m : Nesting} {d i j k : Nat}

/-- **The braces of a sheet pair up.** -/
abbrev Balanced (t : Text) : Prop := Paired (codeMask t)

/-- **A piece that stands by itself**: nothing is open at its end, and its braces pair up. -/
structure Whole (p : Text) : Prop where
  rests : Rests p
  level : levelAfter? 0 (codeMask p) = some 0

instance (p : Text) : Decidable (Whole p) :=
  decidable_of_iff (Rests p ∧ levelAfter? 0 (codeMask p) = some 0)
    ⟨fun ⟨h₁, h₂⟩ => ⟨h₁, h₂⟩, fun ⟨h₁, h₂⟩ => ⟨h₁, h₂⟩⟩

/-- A text without brackets of blocks, quotes and slashes is whole, if its last byte opens nothing. -/
theorem whole_of_plain (h : Plain p) (hopen : '{' ∉ p) (hclose : '}' ∉ p) (hcolon : p.getLast? ≠ some ':')
    (hhash : p.getLast? ≠ some '#') : Whole p := by
  refine ⟨h.rests hcolon hhash, ?_⟩
  rw [codeMask, mask_of_plain h]
  clear h hcolon hhash
  induction p with
  | nil => rfl
  | cons c r ih =>
    simp only [List.mem_cons, not_or] at hopen hclose
    rw [levelAfter?, if_neg (Ne.symm hopen.1), if_neg (Ne.symm hclose.1)]
    exact ih hopen.2 hclose.2

/-- Blanks are whole. -/
theorem whole_of_blank (h : ∀ c ∈ p, isBlank c = true) : Whole p := by
  have habsent : ∀ x, isBlank x = false → x ∉ p := by
    intro x hx hmem
    rw [h x hmem] at hx
    cases hx
  obtain ⟨-, -, hcolon, hhash⟩ := rests_of_blank h
  exact whole_of_plain (plain_of_blank h) (habsent '{' rfl) (habsent '}' rfl) hcolon hhash

/-! ## Putting pieces together -/

/-- Around a piece blocks can be open. -/
theorem levelAfter?_shift {i j : Nat} (h : levelAfter? i w = some j) (d : Nat) :
    levelAfter? (d + i) w = some (d + j) := by
  induction w generalizing i with
  | nil =>
    cases h
    rfl
  | cons c r ih =>
    rw [levelAfter?] at h ⊢
    split at h
    · next hopen =>
      rw [if_pos hopen]
      exact ih h
    · next hopen =>
      rw [if_neg hopen]
      split at h
      · next hclose =>
        split at h
        · cases h
        · next hi =>
          have hpos : d + i ≠ 0 := by omega
          have hless : d + i - 1 = d + (i - 1) := by omega
          rw [if_pos hclose, if_neg hpos, hless]
          exact ih h
      · next hclose =>
        rw [if_neg hclose]
        exact ih h

theorem codeMask_append (h : Joins a b.head?) : codeMask (a ++ b) = codeMask a ++ codeMask b := mask_append h

theorem whole_nil : Whole [] := ⟨rests_nil, rfl⟩

theorem Whole.append (hp : Whole p) (hq : Whole q) : Whole (p ++ q) := by
  refine ⟨hp.rests.append hq.rests, ?_⟩
  rw [codeMask_append (hp.rests.joins _), levelAfter?_append, hp.level]
  exact hq.level

/-- **A whole piece between texts that open and close blocks around it** makes a whole. -/
theorem Whole.enclose (hp : Whole p) (ha : Rests a) (hb : Rests b)
    (hopen : levelAfter? 0 (codeMask a) = some k) (hclose : levelAfter? k (codeMask b) = some 0) :
    Whole (a ++ p ++ b) := by
  have hinside : levelAfter? k (codeMask p) = some k := levelAfter?_shift hp.level k
  refine ⟨(ha.append hp.rests).append hb, ?_⟩
  rw [codeMask_append ((ha.append hp.rests).joins _), codeMask_append (ha.joins _), levelAfter?_append,
    levelAfter?_append, hopen, Option.bind_some, hinside, Option.bind_some, hclose]

/-! ## Walking over a whole piece -/

/-- Inside an interpolation the braces of the piece count for the interpolation. -/
theorem after?_inside {i j : Nat} (hk : 0 < k) (h : levelAfter? i w = some j) (x : Bool) :
    ∃ y, (⟨d, k + i, x⟩ : Nesting).after? w = some ⟨d, k + j, y⟩ := by
  induction w generalizing i x with
  | nil =>
    cases h
    exact ⟨x, rfl⟩
  | cons c r ih =>
    rw [levelAfter?] at h
    have hpos : 0 < k + i := Nat.add_pos_left hk i
    rw [Nesting.after?, Nesting.next, if_pos hpos]
    split at h
    · next hopen =>
      rw [if_pos hopen]
      exact ih h false
    · next hopen =>
      rw [if_neg hopen]
      split at h
      · next hclose =>
        split at h
        · cases h
        · next hi =>
          rw [if_pos hclose]
          have hless : k + i - 1 = k + (i - 1) := by omega
          simp only [hless]
          exact ih h false
      · next hclose =>
        rw [if_neg hclose]
        exact ih h false

/-- Outside interpolation each brace of the piece counts for the blocks or for an interpolation that begins
in the piece. -/
theorem after?_outside {i j e f : Nat} (h : levelAfter? i w = some j) (hi : i = e + f) (x : Bool) :
    ∃ e' f' y, (⟨d + e, f, x⟩ : Nesting).after? w = some ⟨d + e', f', y⟩ ∧ j = e' + f' := by
  -- the count of levels is split into blocks and interpolations; each byte changes one of the two
  induction w generalizing i e f x with
  | nil =>
    cases h
    exact ⟨e, f, x, rfl, hi⟩
  | cons c r ih =>
    rw [levelAfter?] at h
    rw [Nesting.after?, Nesting.next]
    by_cases hopen : c = '{'
    · rw [if_pos hopen] at h
      by_cases hf : 0 < f
      · simp only [hf, hopen, if_true, Option.bind_some]
        exact ih h (by omega) false
      · cases x with
        | true =>
          simp only [hf, hopen, if_true, if_false, Option.bind_some]
          exact ih h (by omega) false
        | false =>
          simp only [hf, hopen, if_true, if_false, Bool.false_eq_true, Option.bind_some]
          exact ih (e := e + 1) h (by omega) false
    · rw [if_neg hopen] at h
      by_cases hclose : c = '}'
      · rw [if_pos hclose] at h
        split at h
        · cases h
        · next hpos =>
          by_cases hf : 0 < f
          · simp only [hf, hclose, if_true]
            rw [if_neg (by decide), Option.bind_some]
            exact ih h (by omega) false
          · have hdepth : d + e ≠ 0 := by omega
            have hless : d + e - 1 = d + (e - 1) := by omega
            simp only [hf, hclose, hdepth, hless, if_true, if_false]
            rw [if_neg (by decide), Option.bind_some]
            exact ih h (by omega) false
      · rw [if_neg hclose] at h
        by_cases hf : 0 < f
        · simp only [hf, hopen, hclose, if_true, if_false, Option.bind_some]
          exact ih h hi false
        · have hzero : f = 0 := Nat.eq_zero_of_not_pos hf
          simp only [hf, hopen, hclose, if_false, Option.bind_some]
          exact ih h (by omega) _

/-- **A whole piece leaves the nesting as it is.** -/
theorem after?_of_level (h : levelAfter? 0 w = some 0) (n : Nesting) :
    ∃ y, n.after? w = some ⟨n.depth, n.inside, y⟩ := by
  by_cases hinside : 0 < n.inside
  · obtain ⟨y, hy⟩ := after?_inside (d := n.depth) hinside h n.hash
    exact ⟨y, hy⟩
  · have hzero : n.inside = 0 := Nat.eq_zero_of_not_pos hinside
    obtain ⟨e, f, y, hy, hlevel⟩ := after?_outside (d := n.depth) (e := 0) (f := 0) h rfl n.hash
    have he : e = 0 := by omega
    have hf : f = 0 := by omega
    subst he hf
    obtain ⟨depth, inside, hash⟩ := n
    simp only at hzero
    subst hzero
    exact ⟨y, hy⟩

/-- A hash sign is known of only if the walk has just passed it. -/
theorem getLast?_of_hash (h : n.after? w = some m) (hash : m.hash = true) (hw : w ≠ []) :
    w.getLast? = some '#' := by
  rcases List.eq_nil_or_concat w with rfl | ⟨w', c, rfl⟩
  · exact absurd rfl hw
  · rw [List.concat_eq_append] at h ⊢
    rw [Nesting.after?_append, Option.bind_eq_some_iff] at h
    obtain ⟨n', -, hlast⟩ := h
    rw [Nesting.after?, Option.bind_eq_some_iff] at hlast
    obtain ⟨m', hnext, hm⟩ := hlast
    cases hm
    rw [List.getLast?_concat]
    -- every byte but a hash sign outside of interpolation makes the walk forget it
    rw [Nesting.next] at hnext
    split at hnext
    · split at hnext
      · cases hnext
        cases hash
      · split at hnext
        · cases hnext
          cases hash
        · cases hnext
          cases hash
    · split at hnext
      · split at hnext
        · cases hnext
          cases hash
        · cases hnext
          cases hash
      · split at hnext
        · split at hnext
          · cases hnext
          · cases hnext
            cases hash
        · cases hnext
          rw [of_decide_eq_true hash]

/-! ## Exchanging one piece -/

theorem head?_of_codeMask {c : Char} (h : (codeMask t).head? = some c) (hc : c ≠ ' ') :
    t.head? = some c := by
  rw [List.head?_eq_getElem?] at h ⊢
  exact getElem?_of_run h hc

theorem getLast?_of_codeMask {c : Char} (h : (codeMask t).getLast? = some c) (hc : c ≠ ' ') :
    t.getLast? = some c := by
  rw [List.getLast?_eq_getElem?, length_codeMask] at h
  rw [List.getLast?_eq_getElem?]
  exact getElem?_of_run h hc

/-- Before a brace that stands behind the piece no hash sign is known of: it would stand at a seam. -/
theorem hash_eq_false_of_joins (before : Joins a (p ++ b).head?) (behind : Joins p b.head?)
    (hb : b.head? = some '{') (hfirst : Nesting.after? {} (codeMask a) = some m)
    (hpiece : m.after? (codeMask p) = some n) : n.hash = false := by
  apply Bool.eq_false_iff.2
  intro hash
  by_cases hp : p = []
  · subst hp
    cases hpiece
    have ha : codeMask a ≠ [] := by
      intro hnil
      rw [hnil] at hfirst
      cases hfirst
      cases hash
    have hlast := getLast?_of_codeMask (getLast?_of_hash hfirst hash ha) (by decide)
    exact before.interpolation ⟨hlast, hb⟩
  · have hne : codeMask p ≠ [] := by
      intro hnil
      apply hp
      rw [← List.length_eq_zero_iff, ← length_codeMask, hnil]
      rfl
    have hlast := getLast?_of_codeMask (getLast?_of_hash hpiece hash hne) (by decide)
    exact behind.interpolation ⟨hlast, hb⟩

/-- A whole piece between texts that it joins has no part in how the blocks end. -/
theorem depth_after?_splice (before : Joins a (p ++ b).head?) (behind : Joins p b.head?)
    (level : levelAfter? 0 (codeMask p) = some 0) :
    (Nesting.after? {} (codeMask (a ++ (p ++ b)))).map (·.depth) =
      ((Nesting.after? {} (codeMask a)).bind fun m =>
        (⟨m.depth, m.inside, false⟩ : Nesting).after? (codeMask b)).map (·.depth) := by
  rw [codeMask_append before, codeMask_append behind, Nesting.after?_append]
  cases hfirst : Nesting.after? {} (codeMask a) with
  | none => rfl
  | some m =>
    obtain ⟨y, hy⟩ := after?_of_level level m
    rw [Option.bind_some, Option.bind_some, Nesting.after?_append, hy, Option.bind_some]
    by_cases hbrace : (codeMask b).head? = some '{'
    · have hb : b.head? = some '{' := head?_of_codeMask hbrace (by decide)
      have hhash : y = false := hash_eq_false_of_joins before behind hb hfirst hy
      rw [hhash]
    · exact Nesting.depth_after?_congr hbrace m.depth m.inside y false

/-- **One whole piece for another.** -/
theorem balanced_splice (before : Joins a (p ++ b).head?) (behind : Joins p b.head?)
    (level : levelAfter? 0 (codeMask p) = some 0) (before' : Joins a (q ++ b).head?)
    (behind' : Joins q b.head?) (level' : levelAfter? 0 (codeMask q) = some 0) :
    Balanced (a ++ (p ++ b)) ↔ Balanced (a ++ (q ++ b)) := by
  unfold Balanced Paired
  rw [depth_after?_splice before behind level, depth_after?_splice before' behind' level']

/-- A whole piece can be taken out after a text at rest. -/
theorem balanced_drop (ha : Rests a) (hp : Whole p) : Balanced (a ++ (p ++ b)) ↔ Balanced (a ++ b) := by
  have hnone : levelAfter? 0 (codeMask []) = some 0 := rfl
  exact balanced_splice (ha.joins _) (hp.rests.joins _) hp.level (ha.joins _) (rests_nil.joins _) hnone

theorem balanced_loses {n : Nat} (h : Loses n t t') : Balanced t ↔ Balanced t' :=
  Paired.loses_iff (h.mask _)

theorem balanced_reaches (h : Reaches t t') : Balanced t ↔ Balanced t' :=
  (Iff.of_eq (h.eq_of_loses (f := Balanced) fun hloss => propext (balanced_loses hloss).symm)).symm

/-! ## Stretches -/

theorem drop_eq_slice_append {i j : Nat} (h : i ≤ j) (t : Text) : t.drop i = slice t i j ++ t.drop j := by
  have hdrop : t.drop j = (t.drop i).drop (j - i) := by
    rw [List.drop_drop, Nat.add_sub_cancel' h]
  rw [slice, hdrop, List.take_append_drop]

theorem take_slice_drop {i j : Nat} (h : i ≤ j) (t : Text) :
    t.take i ++ (slice t i j ++ t.drop j) = t := by
  rw [← drop_eq_slice_append h, List.take_append_drop]

theorem take_append_slice (hij : i ≤ j) (t : Text) : t.take i ++ slice t i j = t.take j := by
  rw [slice, ← List.drop_take, ← Nat.min_eq_left hij, ← List.take_take, Nat.min_eq_left hij, List.take_append_drop]

theorem slice_append (hij : i ≤ j) (hjk : j ≤ k) (t : Text) : slice t i k = slice t i j ++ slice t j k := by
  have hcount : k - i = (j - i) + (k - j) := by omega
  have hplace : i + (j - i) = j := by omega
  rw [slice, hcount, List.take_add, List.drop_drop, hplace]
  rfl

theorem slice_of_larger {i' j' : Nat} (hi : i' ≤ i) (hj : j ≤ j') (t : Text) : slice t i j <:+: slice t i' j' := by
  by_cases hij : i ≤ j
  · rw [slice_append (Nat.le_trans hi hij) hj, slice_append hi hij]
    exact List.infix_append _ _ _
  · have hnone : j - i = 0 := by omega
    rw [slice, hnone, List.take_zero]
    exact List.nil_infix

theorem slice_self (t : Text) (i : Nat) : slice t i i = [] := by
  rw [slice, Nat.sub_self, List.take_zero]

theorem slice_succ {c : Char} (hij : i ≤ j) (hc : t[j]? = some c) : slice t i (j + 1) = slice t i j ++ [c] := by
  have hcount : j + 1 - i = j - i + 1 := by omega
  have hplace : i + (j - i) = j := Nat.add_sub_cancel' hij
  rw [slice, hcount, List.take_add_one, List.getElem?_drop, hplace, hc]
  rfl

theorem slice_cons (hij : i < j) (hi : i < t.length) : slice t i j = t[i] :: slice t (i + 1) j := by
  have hcount : j - i = j - (i + 1) + 1 := by omega
  rw [slice, slice, List.drop_eq_getElem_cons hi, hcount, List.take_succ_cons]

theorem length_slice (hj : j ≤ t.length) : (slice t i j).length = j - i := by
  rw [slice, List.length_take, List.length_drop]
  omega

theorem slice_between {a p b : Text} (hi : i = a.length) (hj : j = i + p.length) : slice (a ++ p ++ b) i j = p := by
  rw [slice, hj, Nat.add_sub_cancel_left, hi, List.append_assoc, List.drop_left, List.take_left]

/-! ## Exchanging many pieces -/

/-- **A piece fits in the place of a stretch**: both are whole, and the text before the stretch joins the
piece, which is not empty. -/
structure Fits (t : Text) (s : Span) (q : Text) : Prop where
  out : Whole (slice t s.start s.stop)
  seam : Joins (t.take s.start) q.head?
  into : Whole q
  something : q ≠ []

/-- **A stretch of a sheet can be exchanged for a piece** that fits, if the stretch begins in code. -/
structure Exchange (t : Text) (s : Span) (q : Text) : Prop extends Fits t s q where
  begins : Joins (t.take s.start) (t.drop s.start).head?

instance (t : Text) (s : Span) (q : Text) : Decidable (Fits t s q) :=
  decidable_of_iff
    (Whole (slice t s.start s.stop) ∧ Joins (t.take s.start) q.head? ∧ Whole q ∧ q ≠ [])
    ⟨fun ⟨h₁, h₂, h₃, h₄⟩ => ⟨h₁, h₂, h₃, h₄⟩, fun ⟨h₁, h₂, h₃, h₄⟩ => ⟨h₁, h₂, h₃, h₄⟩⟩

instance (t : Text) (s : Span) (q : Text) : Decidable (Exchange t s q) :=
  decidable_of_iff (Fits t s q ∧ Joins (t.take s.start) (t.drop s.start).head?)
    ⟨fun ⟨h₁, h₂⟩ => ⟨h₁, h₂⟩, fun ⟨h₁, h₂⟩ => ⟨h₁, h₂⟩⟩

/-- The spans of edits, from left to right, lie apart from each other. -/
def Apart (t : Text) (spans : List Span) : Prop :=
  spans.Pairwise (fun s s' => s.stop ≤ s'.start) ∧ ∀ s ∈ spans, s.start < s.stop ∧ s.stop ≤ t.length

theorem take_replaceSpan {i : Nat} (hi : i ≤ t.length) (h : i ≤ s.start) (q : Text) :
    (replaceSpan t s q).take i = t.take i ∧ i ≤ (replaceSpan t s q).length := by
  have hlength : i ≤ (t.take s.start).length := by
    rw [List.length_take]
    omega
  constructor
  · rw [replaceSpan, List.append_assoc, List.take_append_of_le_length hlength, List.take_take,
      Nat.min_eq_left h]
  · rw [replaceSpan, List.append_assoc, List.length_append]
    omega

/-- The text before all edits stays. -/
theorem take_replaceSpans {es : List (Span × Text)} {i : Nat} (hi : i ≤ t.length)
    (h : ∀ e ∈ es, i ≤ e.1.start) :
    (replaceSpans t es).take i = t.take i ∧ i ≤ (replaceSpans t es).length := by
  induction es with
  | nil => exact ⟨rfl, hi⟩
  | cons e es ih =>
    obtain ⟨hsame, hlength⟩ := ih fun f hf => h f (List.mem_cons_of_mem e hf)
    obtain ⟨hsame', hlength'⟩ := take_replaceSpan hlength (h e List.mem_cons_self) e.2
    exact ⟨hsame'.trans hsame, hlength'⟩

/-- Texts that agree up to the end of a span have the same stretch there. -/
theorem take_slice_congr {i j : Nat} (h : t'.take j = t.take j) (hij : i ≤ j) :
    t'.take i = t.take i ∧ slice t' i j = slice t i j := by
  constructor
  · rw [← Nat.min_eq_left hij, ← List.take_take, h, List.take_take]
  · rw [slice, slice, ← List.drop_take, ← List.drop_take, h]

/-- **What holds of a text whatever whole pieces stand in it** holds after many of them have been exchanged. -/
theorem iff_replaceSpans {P : Text → Prop}
    (swap : ∀ {a p q b : Text}, Whole p → Whole q → Joins a (p ++ b).head? → Joins a (q ++ b).head? →
      (P (a ++ (q ++ b)) ↔ P (a ++ (p ++ b))))
    {es : List (Span × Text)} (apart : Apart t (es.map (·.1))) (h : ∀ e ∈ es, Exchange t e.1 e.2) :
    P (replaceSpans t es) ↔ P t := by
  induction es with
  | nil => exact Iff.rfl
  | cons e es ih =>
    obtain ⟨hordered, hinside⟩ := apart
    rw [List.map_cons, List.pairwise_cons] at hordered
    obtain ⟨hle, hlength⟩ := hinside e.1 List.mem_cons_self
    have hothers : P (replaceSpans t es) ↔ P t :=
      ih ⟨hordered.2, fun s hs => hinside s (List.mem_cons_of_mem e.1 hs)⟩
        fun f hf => h f (List.mem_cons_of_mem e hf)
    have hbefore : ∀ f ∈ es, e.1.stop ≤ f.1.start := fun f hf =>
      hordered.1 f.1 (List.mem_map_of_mem hf)
    obtain ⟨hsame, -⟩ := take_replaceSpans hlength hbefore
    obtain ⟨htake, hslice⟩ := take_slice_congr hsame (Nat.le_of_lt hle)
    obtain ⟨⟨hout, hseam, hinto, hsome⟩, hbegins⟩ := h e List.mem_cons_self
    -- the edits behind have been made; the stretch and what stands before it are as in `t`
    have hacc : replaceSpans t es = t.take e.1.start ++
        (slice t e.1.start e.1.stop ++ (replaceSpans t es).drop e.1.stop) := by
      rw [← htake, ← hslice, take_slice_drop (Nat.le_of_lt hle)]
    have hedited : replaceSpans t (e :: es) = t.take e.1.start ++
        (e.2 ++ (replaceSpans t es).drop e.1.stop) := by
      rw [← htake, ← List.append_assoc]
      rfl
    have hnonempty : slice t e.1.start e.1.stop ≠ [] := by
      rw [← List.length_pos_iff, slice, List.length_take, List.length_drop]
      omega
    have hhead : ∀ r : Text, (slice t e.1.start e.1.stop ++ r).head? = (t.drop e.1.start).head? := by
      intro r
      have hcut : t.drop e.1.start = slice t e.1.start e.1.stop ++
          (t.drop e.1.start).drop (e.1.stop - e.1.start) := (List.take_append_drop _ _).symm
      rw [hcut, head?_append_left hnonempty, head?_append_left hnonempty]
    have hswap : P (t.take e.1.start ++ (e.2 ++ (replaceSpans t es).drop e.1.stop)) ↔
        P (t.take e.1.start ++ (slice t e.1.start e.1.stop ++ (replaceSpans t es).drop e.1.stop)) := by
      apply swap hout hinto
      · rw [hhead]
        exact hbegins
      · rw [head?_append_left hsome]
        exact hseam
    rw [← hacc, ← hedited] at hswap
    exact hswap.trans hothers

/-- **Exchanging many pieces.** -/
theorem balanced_replaceSpans {es : List (Span × Text)} (apart : Apart t (es.map (·.1)))
    (h : ∀ e ∈ es, Exchange t e.1 e.2) : Balanced (replaceSpans t es) ↔ Balanced t := by
  refine iff_replaceSpans ?_ apart h
  intro a p q b hp hq hjoins hjoins'
  exact balanced_splice hjoins' (hq.rests.joins _) hq.level hjoins (hp.rests.joins _) hp.level

/-! ## Cutting statements out -/

/-- **A statement can be cut out**: what stands before it has come to rest, and it is whole. -/
structure Erasure (t : Text) (s : Span) : Prop where
  rests : Rests (t.take s.start)
  out : Whole (slice t s.start s.stop)

instance (t : Text) (s : Span) : Decidable (Erasure t s) :=
  decidable_of_iff (Rests (t.take s.start) ∧ Whole (slice t s.start s.stop))
    ⟨fun ⟨h₁, h₂⟩ => ⟨h₁, h₂⟩, fun ⟨h₁, h₂⟩ => ⟨h₁, h₂⟩⟩

/-- A blank line can go. -/
theorem balanced_blankLine {front blanks : Text} (begun : front = [] ∨ ∃ a, front = a ++ ['\n'])
    (h : ∀ c ∈ blanks, isBlank c = true) (hline : '\n' ∉ blanks) (b : Text) :
    Balanced (front ++ blanks ++ '\n' :: b) ↔ Balanced (front ++ b) := by
  have hend : Balanced (front ++ blanks ++ '\n' :: b) ↔ Balanced (front ++ '\n' :: b) :=
    balanced_reaches (reaches_lineEnd front b h hline)
  rw [hend]
  rcases begun with rfl | ⟨a, rfl⟩
  · exact balanced_reaches (.single (.start b rfl))
  · rw [List.append_assoc, List.append_assoc]
    exact balanced_loses (.intro rfl rfl (.inr (.inr ⟨b, rfl⟩)))

/-- **Cutting one statement out.** -/
theorem balanced_eraseStatement (h : Erasure t s) (hs : s.start ≤ s.stop) :
    Balanced (eraseStatement t s) ↔ Balanced t := by
  have hcut : Balanced (t.take s.start ++ t.drop s.stop) ↔ Balanced t := by
    have hdrop := (balanced_drop h.rests h.out (b := t.drop s.stop)).symm
    rw [take_slice_drop hs] at hdrop
    exact hdrop
  rw [← hcut]
  simp only [eraseStatement]
  split
  · -- the line is blank without the statement
    next hblank =>
    rw [Bool.and_eq_true, List.all_eq_true, List.all_eq_true] at hblank
    obtain ⟨front, hfront, hkept, hbegun, hhead⟩ := lastLine_spec (t.take s.start)
    obtain ⟨htail, hrest⟩ := firstLine_spec (t.drop s.stop)
    rw [hkept]
    have hblanks : ∀ c ∈ lastLine (t.take s.start) ++ Text.firstLine (t.drop s.stop), isBlank c = true := by
      intro c hc
      rcases List.mem_append.1 hc with hc | hc
      · exact hblank.1 c hc
      · exact hblank.2 c hc
    have hline : '\n' ∉ lastLine (t.take s.start) ++ Text.firstLine (t.drop s.stop) := by
      rw [List.mem_append, not_or]
      exact ⟨hhead, htail⟩
    rcases hrest with ⟨hlast, hnothing⟩ | hmore
    · -- no other line follows
      have hends : t.take s.start ++ t.drop s.stop =
          front ++ (lastLine (t.take s.start) ++ Text.firstLine (t.drop s.stop)) := by
        rw [← List.append_assoc, ← hfront, ← hlast]
      rw [hnothing, List.append_nil, hends]
      exact (balanced_reaches (reaches_drop_blanks front hblanks)).symm
    · have hends : t.take s.start ++ t.drop s.stop =
          front ++ (lastLine (t.take s.start) ++ Text.firstLine (t.drop s.stop)) ++
            '\n' :: (t.drop s.stop).drop ((Text.firstLine (t.drop s.stop)).length + 1) := by
        rw [← List.append_assoc, ← hfront, List.append_assoc, ← hmore]
      rw [hends]
      exact (balanced_blankLine hbegun hblanks hline _).symm
  · -- only blanks go with the statement
    have hblanks : ∀ c ∈ (t.drop s.stop).takeWhile isSpaceOrTab, isBlank c = true := by
      intro c hc
      have hclass := List.all_eq_true.1 List.all_takeWhile c hc
      simp only [isSpaceOrTab, Bool.or_eq_true, decide_eq_true_eq] at hclass
      rcases hclass with rfl | rfl <;> rfl
    have hdrop := balanced_drop h.rests (whole_of_blank hblanks)
      (b := (t.drop s.stop).dropWhile isSpaceOrTab)
    rw [List.takeWhile_append_dropWhile] at hdrop
    exact hdrop.symm

theorem apart_of_codeMask {spans : List Span} (h : Apart (codeMask t) spans) : Apart t spans := by
  refine ⟨h.1, ?_⟩
  rw [← length_codeMask t]
  exact h.2

theorem byteBefore_of_codeMask {i : Nat} {x : Char} (h : byteBefore (codeMask t) i = some x)
    (hblank : isBlank x = false) : ∀ c, byteBefore t i = some c → isBlank c = false := by
  intro c hc
  have hspace : x ≠ ' ' := by
    rintro rfl
    cases hblank
  cases i with
  | zero => cases h
  | succ j =>
    have hbyte : t[j]? = some x := getElem?_of_run h hspace
    have hsame : some x = some c := hbyte.symm.trans hc
    rw [← Option.some.inj hsame]
    exact hblank

/-- **Cutting many statements out**, each of which ends in a byte that is not blank. -/
theorem balanced_eraseStatements {spans : List Span} (apart : Apart t spans)
    (solid : ∀ s ∈ spans, ∀ c, byteBefore t s.stop = some c → isBlank c = false)
    (h : ∀ s ∈ spans, Erasure t s) : Balanced (eraseStatements t spans) ↔ Balanced t := by
  induction spans with
  | nil => exact Iff.rfl
  | cons s spans ih =>
    obtain ⟨hordered, hinside⟩ := apart
    rw [List.pairwise_cons] at hordered
    obtain ⟨hle, hlength⟩ := hinside s List.mem_cons_self
    have hothers : Balanced (eraseStatements t spans) ↔ Balanced t :=
      ih ⟨hordered.2, fun s' hs' => hinside s' (List.mem_cons_of_mem s hs')⟩
        (fun s' hs' => solid s' (List.mem_cons_of_mem s hs')) fun s' hs' => h s' (List.mem_cons_of_mem s hs')
    obtain ⟨hsame, -⟩ := take_eraseStatements hlength hordered.1 (solid s List.mem_cons_self)
    obtain ⟨htake, hslice⟩ := take_slice_congr hsame (Nat.le_of_lt hle)
    obtain ⟨hrests, hout⟩ := h s List.mem_cons_self
    have herasure : Erasure (eraseStatements t spans) s := by
      refine ⟨?_, ?_⟩
      · rw [htake]
        exact hrests
      · rw [hslice]
        exact hout
    exact (balanced_eraseStatement herasure (Nat.le_of_lt hle)).trans hothers

end Flatsheet.Check
