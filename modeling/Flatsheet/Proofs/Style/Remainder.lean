import Flatsheet.Proofs.Style.Scanner
import Flatsheet.Proofs.Style.Tracking

/-!
# `Proofs.Style.Remainder` — what is left of a text without its declarations

The declarations are cut out of a text before its references are converted. A stretch that no declaration touches
stays as it is if it begins where the text has come to rest (`Clear`). What is left of the text before it does not
depend on what comes behind it, and comes to rest too (`Clear.remainder_eq`), so the code mask shows the same in
the stretch as before.

* `remainder`, `leftBefore`: what is left of a text, and of the text before an offset
* `remainder_sublist`: nothing of a declaration is left
* `Clear.hoist_keeps`: a stretch without declarations and conversions is in the result as it is
-/

namespace Flatsheet.Style

open Text Check Mask

variable {t x : Text} {d : Declaration} {c : Char} {i j k : Nat} {spans : List Span}

/-- The text without its declarations. -/
def remainder (t : Text) : Text := eraseStatements t ((Declaration.find t).map (·.span))

/-- What is left of the text before an offset at which a byte stands that is not blank. The byte is there while the
declarations before it are cut out, as it keeps the line from being blank. -/
def leftBefore (t : Text) (i : Nat) : Text :=
  (eraseStatements (t.take (i + 1)) (((Declaration.find t).filter (·.span.stop ≤ i)).map (·.span))).dropLast

/-! ## Declarations as spans -/

theorem apart_find (t : Text) : Apart t ((Declaration.find t).map (·.span)) :=
  apart_of_codeMask (Declaration.find_apart t).1

/-- The last byte of a declaration is not blank. -/
theorem solid_of_mem_find (h : d ∈ Declaration.find t) :
    ∀ x, byteBefore t d.span.stop = some x → isBlank x = false :=
  byteBefore_of_codeMask ((Declaration.find_apart t).2 d h) rfl

/-! ## Cutting out declarations -/

theorem eraseStatements_append (t : Text) (spans spans' : List Span) :
    eraseStatements t (spans ++ spans') = eraseStatements (eraseStatements t spans') spans := List.foldr_append

/-- **What is cut out before a byte that is not blank** leaves a text that comes to rest there, whatever comes behind
the byte. -/
theorem eraseStatements_before (apart : Apart x spans)
    (solid : ∀ s ∈ spans, ∀ y, byteBefore x s.stop = some y → isBlank y = false)
    (hrests : ∀ s ∈ spans, Rests (x.take s.start) ∧ Rests (x.take s.stop)) (hx : Rests x) (hc : isBlank c = false) :
    ∃ a, Rests a ∧ (∀ r, eraseStatements (x ++ c :: r) spans = a ++ c :: r) ∧
      ∀ i ≤ x.length, (∀ s ∈ spans, i ≤ s.start) → (∀ y, byteBefore x i = some y → isBlank y = false) →
        i ≤ a.length ∧ a.take i = x.take i := by
  induction spans with
  | nil => exact ⟨x, hx, fun _ => rfl, fun i hi _ _ => ⟨hi, rfl⟩⟩
  | cons s spans ih =>
    obtain ⟨hordered, hinside⟩ := apart
    rw [List.pairwise_cons] at hordered
    obtain ⟨hlt, hstop⟩ := hinside s List.mem_cons_self
    obtain ⟨a, ha, herased, hkept⟩ := ih ⟨hordered.2, fun s' hs' => hinside s' (List.mem_cons_of_mem s hs')⟩
      (fun s' hs' => solid s' (List.mem_cons_of_mem s hs')) fun s' hs' => hrests s' (List.mem_cons_of_mem s hs')
    -- up to the end of the first statement the text is as before
    obtain ⟨hlength, hsame⟩ := hkept s.stop hstop hordered.1 (solid s List.mem_cons_self)
    have htake : ∀ {i}, i ≤ s.stop → a.take i = x.take i := by
      intro i hi
      rw [← Nat.min_eq_left hi, ← List.take_take, hsame, List.take_take]
    obtain ⟨hbefore, hbehind⟩ := hrests s List.mem_cons_self
    rw [← htake (Nat.le_of_lt hlt)] at hbefore
    rw [← hsame] at hbehind
    obtain ⟨a', ha', herased', hkept'⟩ :=
      eraseStatement_before (Nat.le_of_lt hlt) hlength hc ha hbefore hbehind
    refine ⟨a', ha', ?_, ?_⟩
    · intro r
      show eraseStatement (eraseStatements (x ++ c :: r) spans) s = _
      rw [herased, herased']
    · intro i _ hstarts hsolid
      have hi : i ≤ s.start := hstarts s List.mem_cons_self
      have hsame' := htake (Nat.le_trans hi (Nat.le_of_lt hlt))
      have hsolid' : ∀ y, byteBefore a i = some y → isBlank y = false := by
        rw [byteBefore_congr hsame']
        exact hsolid
      obtain ⟨hlength', htake'⟩ := hkept' i hi hsolid'
      exact ⟨hlength', htake'.trans hsame'⟩

/-- **Nothing of a declaration is left.** -/
theorem remainder_sublist (h : d ∈ Declaration.find t) :
    (remainder t).Sublist (t.take d.span.start ++ t.drop d.span.stop) := by
  obtain ⟨before, behind, hfind⟩ := List.append_of_mem h
  have happart := apart_find t
  have hle : ∀ s ∈ (Declaration.find t).map (·.span), s.start ≤ s.stop :=
    fun s hs => Nat.le_of_lt (happart.2 s hs).1
  rw [hfind, List.map_append, List.map_cons] at happart hle
  obtain ⟨hordered, hinside⟩ := happart
  have hlater : ∀ s ∈ behind.map (·.span), d.span.stop ≤ s.start :=
    (List.pairwise_cons.1 (List.pairwise_append.1 hordered).2.1).1
  obtain ⟨hlt, hstop⟩ := hinside d.span (List.mem_append_right _ List.mem_cons_self)
  obtain ⟨hsame, -⟩ := take_eraseStatements hstop hlater (solid_of_mem_find h)
  obtain ⟨front, u, v, back, hfront, hback, herased, -⟩ :=
    eraseStatement_pieces (eraseStatements t (behind.map (·.span))) d.span
  -- the declaration is cut out of a text that has lost those behind it
  have hparts : (front ++ back).Sublist (t.take d.span.start ++ t.drop d.span.stop) := by
    apply List.Sublist.append
    · have htake : (eraseStatements t (behind.map (·.span))).take d.span.start = t.take d.span.start := by
        rw [← Nat.min_eq_left (Nat.le_of_lt hlt), ← List.take_take, hsame, List.take_take]
      rw [← htake, hfront]
      exact List.sublist_append_left _ _
    · have hwhole : (eraseStatements t (behind.map (·.span))).Sublist t := by
        apply eraseStatements_sublist
        intro s hs
        exact hle s (List.mem_append_right _ (List.mem_cons_of_mem _ hs))
      rw [← List.take_append_drop d.span.stop (eraseStatements t (behind.map (·.span))), hsame] at hwhole
      conv at hwhole =>
        rhs
        rw [← List.take_append_drop d.span.stop t]
      rw [List.append_sublist_append_left, hback] at hwhole
      exact (List.sublist_append_right _ _).trans hwhole
  rw [← herased] at hparts
  have hrest : (remainder t).Sublist (eraseStatement (eraseStatements t (behind.map (·.span))) d.span) := by
    rw [remainder, hfind, List.map_append, List.map_cons, eraseStatements_append]
    apply eraseStatements_sublist
    intro s hs
    exact hle s (List.mem_append_left _ hs)
  exact hrest.trans hparts

/-! ## Stretches between places at rest -/

theorem rests_slice (hi : Rests (t.take i)) (hj : Rests (t.take j)) (hij : i ≤ j) : Rests (slice t i j) := by
  apply hi.of_append
  rwa [take_append_slice hij]

/-- **The mask of a stretch between two places at rest** is the stretch of the mask. -/
theorem codeMask_slice (hi : Rests (t.take i)) (hj : Rests (t.take j)) (hij : i ≤ j) (hlength : j ≤ t.length) :
    codeMask (slice t i j) = slice (codeMask t) i j := by
  have hmask : codeMask t = codeMask (t.take i) ++ (codeMask (slice t i j) ++ codeMask (t.drop j)) := by
    rw [← codeMask_append ((rests_slice hi hj hij).joins _), ← codeMask_append (hi.joins _), take_slice_drop hij]
  have hfront : (codeMask (t.take i)).length = i := by
    rw [length_codeMask, List.length_take_of_le (Nat.le_trans hij hlength)]
  have hcount : (codeMask (slice t i j)).length = j - i := by
    rw [length_codeMask, length_slice hlength]
  rw [hmask, ← List.append_assoc]
  apply (slice_between hfront.symm _).symm
  rw [hcount, Nat.add_sub_cancel' hij]

/-! ## Stretches without declarations -/

/-- **A stretch that no declaration touches**: it begins where the text has come to rest, and neither of its ends is
blank. -/
structure Clear (t : Text) (i j : Nat) : Prop where
  inside : i < j ∧ j ≤ t.length
  rests : Rests (t.take i)
  begins : ∀ x, t[i]? = some x → isBlank x = false
  ends : ∀ x, byteBefore t j = some x → isBlank x = false
  apart : ∃ ds es, Declaration.find t = ds ++ es ∧ (∀ d ∈ ds, d.span.stop ≤ i) ∧ ∀ d ∈ es, j ≤ d.span.start

/-- **The declarations before a byte that is not blank**, where the text has come to rest, leave a text that comes to
rest too, whatever comes behind the byte. -/
theorem erase_declarations_before {ds es : List Declaration} (hfind : Declaration.find t = ds ++ es)
    (hds : ∀ d ∈ ds, d.span.stop ≤ i) (hrests : Rests (t.take i)) (hi : i < t.length) (hc : isBlank c = false) :
    ∃ a, Rests a ∧ ∀ r, eraseStatements (t.take i ++ c :: r) (ds.map (·.span)) = a ++ c :: r := by
  obtain ⟨hordered, hinside⟩ := apart_find t
  rw [hfind, List.map_append] at hordered hinside
  have hmem : ∀ d ∈ ds, d ∈ Declaration.find t := by
    intro d hd
    rw [hfind]
    exact List.mem_append_left _ hd
  have htake : ∀ {k}, k ≤ i → (t.take i).take k = t.take k := by
    intro k hk
    rw [List.take_take, Nat.min_eq_left hk]
  have happart : Apart (t.take i) (ds.map (·.span)) := by
    refine ⟨(List.pairwise_append.1 hordered).1, ?_⟩
    intro s hs
    obtain ⟨d, hd, rfl⟩ := List.mem_map.1 hs
    rw [List.length_take_of_le (Nat.le_of_lt hi)]
    exact ⟨(hinside _ (List.mem_append_left _ hs)).1, hds d hd⟩
  have hsolid : ∀ s ∈ ds.map (·.span), ∀ y, byteBefore (t.take i) s.stop = some y → isBlank y = false := by
    intro s hs
    obtain ⟨d, hd, rfl⟩ := List.mem_map.1 hs
    rw [byteBefore_congr (htake (hds d hd))]
    exact solid_of_mem_find (hmem d hd)
  have hresting : ∀ s ∈ ds.map (·.span), Rests ((t.take i).take s.start) ∧ Rests ((t.take i).take s.stop) := by
    intro s hs
    obtain ⟨d, hd, rfl⟩ := List.mem_map.1 hs
    have hlt := (hinside d.span (List.mem_append_left _ hs)).1
    rw [htake (hds d hd), htake (Nat.le_trans (Nat.le_of_lt hlt) (hds d hd))]
    exact rests_of_mem_find (hmem d hd)
  obtain ⟨a, ha, herased, -⟩ := eraseStatements_before happart hsolid hresting hrests hc
  exact ⟨a, ha, herased⟩

/-- At a place between the declarations, those that end before it are the ones on its one side. -/
theorem filter_find_before {ds es : List Declaration} (hfind : Declaration.find t = ds ++ es)
    (hds : ∀ d ∈ ds, d.span.stop ≤ k) (hes : ∀ d ∈ es, k < d.span.start) :
    (Declaration.find t).filter (·.span.stop ≤ k) = ds := by
  have hinside := (apart_find t).2
  rw [hfind, List.map_append] at hinside
  rw [hfind, List.filter_append, List.filter_eq_self.2, List.filter_eq_nil_iff.2, List.append_nil]
  · intro e he
    have hlt := (hinside e.span (List.mem_append_right _ (List.mem_map_of_mem he))).1
    have hstart := hes e he
    simp only [decide_eq_true_eq]
    omega
  · intro d hd
    exact decide_eq_true (hds d hd)

/-- **The declarations behind a stretch leave the text up to its end.** -/
theorem Clear.erase_behind {es : List Declaration} (h : Clear t i j) (hes : ∀ d ∈ es, j ≤ d.span.start) :
    (eraseStatements t (es.map (·.span))).take i = t.take i ∧
      (eraseStatements t (es.map (·.span))).drop i =
        slice t i j ++ (eraseStatements t (es.map (·.span))).drop j := by
  have hlater : ∀ s ∈ es.map (·.span), j ≤ s.start := by
    intro s hs
    obtain ⟨e, he, rfl⟩ := List.mem_map.1 hs
    exact hes e he
  obtain ⟨hsame, -⟩ := take_eraseStatements h.inside.2 hlater h.ends
  obtain ⟨htake, hslice⟩ := take_slice_congr hsame (Nat.le_of_lt h.inside.1)
  refine ⟨htake, ?_⟩
  rw [← hslice, ← drop_eq_slice_append (Nat.le_of_lt h.inside.1)]

/-- **What is left of a text is put together at such a stretch**: what is left of the text before it, which comes to
rest, and the text from there on without the declarations behind the stretch. -/
theorem Clear.remainder_cut {ds es : List Declaration} (h : Clear t i j) (hfind : Declaration.find t = ds ++ es)
    (hds : ∀ d ∈ ds, d.span.stop ≤ i) (hes : ∀ d ∈ es, j ≤ d.span.start) :
    Rests (leftBefore t i) ∧ (∀ k, i ≤ k → k < j → leftBefore t k = leftBefore t i ++ slice t i k) ∧
      remainder t = leftBefore t i ++ (eraseStatements t (es.map (·.span))).drop i := by
  obtain ⟨htake, hdrop⟩ := h.erase_behind hes
  obtain ⟨⟨hij, hj⟩, hrests, hbegins, -⟩ := h
  have hi : i < t.length := Nat.lt_of_lt_of_le hij hj
  obtain ⟨a, ha, herased⟩ :=
    erase_declarations_before hfind hds hrests hi (hbegins _ (List.getElem?_eq_getElem hi))
  have hleft : ∀ k, i ≤ k → k < j → leftBefore t k = a ++ slice t i k := by
    intro k hik hkj
    have hk : k < t.length := by omega
    have hfilter : (Declaration.find t).filter (·.span.stop ≤ k) = ds :=
      filter_find_before hfind (fun d hd => Nat.le_trans (hds d hd) hik) fun d hd => Nat.lt_of_lt_of_le hkj (hes d hd)
    have hcut : t.take (k + 1) = t.take i ++ t[i] :: slice t (i + 1) (k + 1) := by
      rw [← take_append_slice (Nat.le_succ_of_le hik), slice_cons (Nat.lt_succ_of_le hik) hi]
    have hlast : t[i] :: slice t (i + 1) (k + 1) = slice t i k ++ [t[k]] := by
      rw [← slice_cons (Nat.lt_succ_of_le hik) hi, slice_succ hik (List.getElem?_eq_getElem hk)]
    rw [leftBefore, hfilter, hcut, herased, hlast, ← List.append_assoc, List.dropLast_concat]
  have hhere : leftBefore t i = a := by
    rw [hleft i (Nat.le_refl i) hij, slice_self, List.append_nil]
  refine ⟨hhere ▸ ha, fun k hik hkj => hhere.symm ▸ hleft k hik hkj, ?_⟩
  generalize hkept : eraseStatements t (es.map (·.span)) = kept at htake hdrop ⊢
  -- the stretch begins with a byte that is not blank, and the declarations before it are cut out in front of that
  have hrest : kept.drop i = t[i] :: (slice t (i + 1) j ++ kept.drop j) := by
    rw [hdrop, slice_cons hij hi, List.cons_append]
  calc remainder t = eraseStatements (t.take i ++ kept.drop i) (ds.map (·.span)) := by
        rw [remainder, hfind, List.map_append, eraseStatements_append, hkept, ← htake, List.take_append_drop]
    _ = leftBefore t i ++ kept.drop i := by rw [hrest, herased, hhere]

/-- **Such a stretch stays**, behind a text that comes to rest. -/
theorem Clear.remainder_eq (h : Clear t i j) : Rests (leftBefore t i) ∧
    ∃ c, remainder t = leftBefore t i ++ slice t i j ++ c := by
  obtain ⟨ds, es, hfind, hds, hes⟩ := h.apart
  obtain ⟨hrests, -, hrem⟩ := h.remainder_cut hfind hds hes
  obtain ⟨-, hdrop⟩ := h.erase_behind hes
  refine ⟨hrests, (eraseStatements t (es.map (·.span))).drop j, ?_⟩
  rw [hrem, hdrop, List.append_assoc]

/-! ## What comes of the remainder -/

theorem trimLeft_append_cons (hc : isBlank c = false) (front back : Text) :
    trimLeft (front ++ c :: back) = trimLeft front ++ c :: back := by
  unfold trimLeft
  rw [List.dropWhile_append]
  split
  · next hblank =>
    rw [List.isEmpty_iff.1 hblank, List.dropWhile_cons, hc]
    rfl
  · rfl

/-- What the result begins with when the text begins with `front` after its references have been converted. -/
def headed (vars : List Variable) (front : Text) : Text :=
  if vars.isEmpty then front else rootBlock vars ++ trimLeft front

/-- **A byte that is not blank, with what stands behind it**, is in the result as it is when the references of the
remainder have been converted. -/
theorem hoist_shows {front back : Text} (hc : isBlank c = false)
    (h : (convertUsages (remainder t)).1 = front ++ c :: back) :
    (hoist t).content = headed (hoist t).vars front ++ c :: back := by
  have hcontent : (hoist t).content = headed (hoist t).vars (convertUsages (remainder t)).1 := rfl
  rw [hcontent, h, headed, headed]
  split
  · rfl
  · rw [trimLeft_append_cons hc, List.append_assoc]

/-- What the result has in place of the text before an offset. -/
def hoistedBefore (t : Text) (i : Nat) : Text :=
  headed (hoist t).vars (editedBefore (remainder t) (usages (remainder t)) (leftBefore t i).length)

/-- **A stretch without declarations and conversions is in the result as it is.** -/
theorem Clear.hoist_keeps (h : Clear t i j)
    (hno : ∀ e ∈ usages (remainder t), e.1.stop ≤ (leftBefore t i).length ∨
      (leftBefore t i).length + (j - i) ≤ e.1.start) :
    ∃ back, (hoist t).content = hoistedBefore t i ++ slice t i j ++ back := by
  obtain ⟨-, c, hrem⟩ := h.remainder_eq
  obtain ⟨hedits, hconvert⟩ := convertUsages_eq (remainder t)
  have hij := h.inside.1
  have hslice : slice (remainder t) (leftBefore t i).length ((leftBefore t i).length + (j - i)) = slice t i j := by
    rw [hrem]
    apply slice_between rfl
    rw [length_slice h.inside.2]
  have hlength : (leftBefore t i).length + (j - i) ≤ (remainder t).length := by
    rw [hrem, List.length_append, List.length_append, length_slice h.inside.2]
    exact Nat.le_add_right _ _
  obtain ⟨back, hkept⟩ := replaceSpans_keeps hedits.apart (Nat.le_add_right _ _) hlength hno
  rw [hslice] at hkept
  have hi : i < t.length := Nat.lt_of_lt_of_le hij h.inside.2
  have hcut : slice t i j = t[i] :: slice t (i + 1) j := slice_cons hij hi
  rw [hcut, List.append_assoc, List.cons_append] at hkept
  refine ⟨back, ?_⟩
  rw [hcut, List.append_assoc, List.cons_append]
  apply hoist_shows (h.begins _ (List.getElem?_eq_getElem hi))
  rw [hconvert]
  exact hkept

end Flatsheet.Style
