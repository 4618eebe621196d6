import Flatsheet.Proofs.Style.Declarations

/-!
# `Proofs.Style.Scanner` — the places that the scanner of declarations comes to

The scanner goes over each declaration that it finds and over every other byte (`Place.next`). Wherever it comes to
the beginning of a statement, the text has come to rest (`rests_of_fresh`): the byte before is blank or ends
another statement (`Place.Sound`, which each step keeps). So every declaration can be cut out between two places at
rest (`rests_of_mem_find`).

* `find_place`: at each place the declarations are those behind it and those still to be found
* `mem_findOn`: each declaration is seen at a place
-/

namespace Flatsheet.Style

open Text Check Mask

variable {t : Text} {s : Declaration.Scan} {d : Declaration} {c : Cursor} {n : Nat} {x y : Char} {w : Text}

/-! ## Steps -/

/-- A place that the scanner comes to, and what it knows there. -/
structure Place where
  scan : Declaration.Scan
  cursor : Cursor
deriving DecidableEq

variable {p : Place}

/-- The place that the scanner goes on to: behind the declaration that it sees, or else behind the byte. -/
def Place.next (t : Text) (p : Place) : Place :=
  match p.cursor.byte? with
  | none => p
  | some y =>
    match seen? t p.scan p.cursor y with
    | some d => ⟨{ p.scan with statement := none }, p.cursor.advance (d.span.stop - p.cursor.pos)⟩
    | none => ⟨p.scan.next p.cursor.byteBefore? p.cursor.rest y, p.cursor.advance 1⟩

/-- The place after so many steps. -/
def place (t : Text) : Nat → Place
  | 0 => ⟨{}, [], 0, codeMask t⟩
  | n + 1 => (place t n).next t

theorem next_of_end (h : p.cursor.byte? = none) : p.next t = p := by
  rw [Place.next, h]

theorem next_of_seen (hy : p.cursor.byte? = some y) (h : seen? t p.scan p.cursor y = some d) : p.next t =
    ⟨{ p.scan with statement := none }, p.cursor.advance (d.span.stop - p.cursor.pos)⟩ := by
  simp only [Place.next, hy, h]

theorem next_of_unseen (hy : p.cursor.byte? = some y) (h : seen? t p.scan p.cursor y = none) : p.next t =
    ⟨p.scan.next p.cursor.byteBefore? p.cursor.rest y, p.cursor.advance 1⟩ := by
  simp only [Place.next, hy, h]

theorem seen?_eq_some : seen? t s c y = some d ↔ (s.admits = true ∧ y = '$') ∧ Declaration.at? t c = some d := by
  unfold seen?
  split
  · next h =>
    simp only [Bool.and_eq_true, decide_eq_true_eq] at h
    simp [h]
  · next h =>
    simp only [Bool.and_eq_true, decide_eq_true_eq] at h
    simp [h]

theorem pos_advance_byte (hy : c.byte? = some y) : (c.advance 1).pos = c.pos + 1 := by
  obtain ⟨r, hr⟩ := List.head?_eq_some_iff.1 hy
  rw [Cursor.pos_advance, hr, List.length_cons, Nat.min_eq_left (Nat.succ_le_succ (Nat.zero_le _))]

theorem byteBefore?_advance (hy : c.byte? = some y) : (c.advance 1).byteBefore? = some y := by
  obtain ⟨r, hr⟩ := List.head?_eq_some_iff.1 hy
  show ((c.rest.take 1).reverse ++ c.seen).head? = some y
  rw [hr]
  rfl

/-! ## What the scanner knows -/

theorem byteBefore?_eq (h : c.Reads w) : c.byteBefore? = byteBefore w c.pos := by
  obtain ⟨rfl, hpos⟩ := h
  rw [hpos]
  unfold Cursor.byteBefore?
  cases c.seen with
  | nil => rfl
  | cons x r =>
    rw [List.reverse_cons, List.append_assoc]
    show some x = (r.reverse ++ ([x] ++ c.rest))[r.length]?
    rw [List.getElem?_append_right (by simp)]
    simp

/-- **What holds wherever the scanner comes**: its cursor goes through the code mask, and at the beginning of a
statement the byte before is blank or ends another statement. -/
structure Place.Sound (t : Text) (p : Place) : Prop where
  reads : p.cursor.Reads (codeMask t)
  fresh : p.scan.statement = none →
    ∀ x, p.cursor.byteBefore? = some x → isBlank x = true ∨ x = ';' ∨ x = '\x7b' ∨ x = '\x7d'

/-- A byte at which a statement ends, or none begins. -/
theorem fresh_of_next {before : Option Char} {here : Text} (h : (s.next before here x).statement = none) :
    isBlank x = true ∨ x = ';' ∨ x = '\x7b' ∨ x = '\x7d' := by
  unfold Declaration.Scan.next at h
  split at h
  · next hblank => exact .inl hblank
  · dsimp only at h
    split at h
    · next hopen => exact .inr (.inr (.inl hopen))
    · split at h
      · next hclose => exact .inr (.inr (.inr hclose))
      · split at h
        · next hend => exact .inr (.inl hend)
        · cases h

/-- A declaration that is seen begins at the cursor, and the cursor behind it stands behind its semicolon. -/
theorem Place.Sound.over (h : p.Sound t) (hfound : Declaration.at? t p.cursor = some d) :
    d.span.start = p.cursor.pos ∧ p.cursor.pos < d.span.stop ∧
      (p.cursor.advance (d.span.stop - p.cursor.pos)).pos = d.span.stop ∧
      byteBefore (codeMask t) d.span.stop = some ';' := by
  obtain ⟨hstart, hlt, hlength, hsemicolon⟩ := Declaration.at?_found h.reads.at hfound
  have hrest := h.reads.at.length_rest
  refine ⟨hstart, by omega, ?_, hsemicolon⟩
  rw [Cursor.pos_advance]
  omega

/-- **Each step keeps it.** -/
theorem Place.Sound.next (h : p.Sound t) : (p.next t).Sound t := by
  cases hy : p.cursor.byte? with
  | none =>
    rw [next_of_end hy]
    exact h
  | some y =>
    cases hseen : seen? t p.scan p.cursor y with
    | none =>
      rw [next_of_unseen hy hseen]
      refine ⟨h.reads.advance 1, ?_⟩
      intro hstatement x hx
      have hlast : (p.cursor.advance 1).byteBefore? = some y := byteBefore?_advance hy
      rw [hlast] at hx
      cases hx
      exact fresh_of_next hstatement
    | some d =>
      rw [next_of_seen hy hseen]
      have hreads := h.reads.advance (d.span.stop - p.cursor.pos)
      refine ⟨hreads, ?_⟩
      intro _ x hx
      obtain ⟨-, -, hpos, hsemicolon⟩ := h.over (seen?_eq_some.1 hseen).2
      have hlast := byteBefore?_eq hreads
      rw [hpos, hsemicolon] at hlast
      rw [hlast] at hx
      cases hx
      exact .inr (.inl rfl)

/-- **It holds wherever the scanner comes.** -/
theorem sound_place (t : Text) (n : Nat) : (place t n).Sound t := by
  induction n with
  | zero => exact ⟨⟨rfl, rfl⟩, nofun⟩
  | succ n ih => exact ih.next

/-- **Where a statement begins, the text before it has come to rest.** -/
theorem rests_of_fresh (h : p.Sound t) (hstatement : p.scan.statement = none) (hy : p.cursor.byte? = some y)
    (hblank : isBlank y = false) (hquote : y ≠ '"' ∧ y ≠ '\'') : Rests (t.take p.cursor.pos) := by
  rw [h.reads.at.byte?] at hy
  apply rests_of_masked hy hblank hquote
  intro x hx
  rw [← byteBefore?_eq h.reads] at hx
  rcases h.fresh hstatement x hx with hx | rfl | rfl | rfl
  · refine ⟨?_, ?_, ?_⟩ <;> (rintro rfl; cases hx)
  · decide
  · decide
  · decide

/-! ## What the scanner finds -/

/-- **At each place the declarations are those behind it and those still to be found.** -/
theorem find_place (t : Text) (n : Nat) : ∃ before,
    Declaration.find t = before ++ findOn t (place t n).scan (place t n).cursor ∧
      ∀ d ∈ before, d.span.stop ≤ (place t n).cursor.pos := by
  induction n with
  | zero => exact ⟨[], rfl, nofun⟩
  | succ n ih =>
    obtain ⟨before, hfind, hbefore⟩ := ih
    have hsound := sound_place t n
    rw [place]
    cases hy : (place t n).cursor.byte? with
    | none =>
      rw [next_of_end hy]
      exact ⟨before, hfind, hbefore⟩
    | some y =>
      cases hseen : seen? t (place t n).scan (place t n).cursor y with
      | none =>
        rw [next_of_unseen hy hseen]
        refine ⟨before, ?_, ?_⟩
        · rw [hfind, findOn_none hy hseen]
        · intro d hd
          exact Nat.le_trans (hbefore d hd) (Cursor.le_pos_advance _ 1)
      | some d =>
        -- the scanner goes on behind the declaration, which is then one of those before it
        rw [next_of_seen hy hseen]
        obtain ⟨-, hlt, hpos, -⟩ := hsound.over (seen?_eq_some.1 hseen).2
        refine ⟨before ++ [d], ?_, ?_⟩
        · rw [hfind, findOn_some hy hseen hlt, List.append_assoc]
          rfl
        · intro e he
          show e.span.stop ≤ ((place t n).cursor.advance _).pos
          rw [hpos]
          rcases List.mem_append.1 he with he | he
          · exact Nat.le_of_lt (Nat.lt_of_le_of_lt (hbefore e he) hlt)
          · exact Nat.le_of_eq (congrArg (·.span.stop) (List.mem_singleton.1 he))

/-- **Each declaration is seen at a place.** -/
theorem mem_findOn (hp : p.Sound t) (h : d ∈ findOn t p.scan p.cursor) : ∃ q : Place, q.Sound t ∧
    q.cursor.byte? = some '$' ∧ q.scan.statement = none ∧ Declaration.at? t q.cursor = some d ∧
      p.cursor.pos ≤ q.cursor.pos := by
  generalize hlength : p.cursor.rest.length = m
  -- behind a declaration the scanner goes on at its end, so the induction is on what is left to read
  induction m using Nat.strongRecOn generalizing p with
  | ind m ih =>
    have hsound := hp.next
    cases hy : p.cursor.byte? with
    | none =>
      have hnone : findOn t p.scan p.cursor = [] := by
        rw [findOn, List.head?_eq_none_iff.1 hy]
        rfl
      rw [hnone] at h
      cases h
    | some y =>
      cases hseen : seen? t p.scan p.cursor y with
      | none =>
        rw [findOn_none hy hseen] at h
        rw [next_of_unseen hy hseen] at hsound
        have hless := Cursor.length_rest_lt hy Nat.zero_lt_one
        obtain ⟨q, hq, hdollar, hstatement, hfound, hle⟩ := ih _ (hlength ▸ hless) hsound h rfl
        exact ⟨q, hq, hdollar, hstatement, hfound, Nat.le_trans (Cursor.le_pos_advance _ 1) hle⟩
      | some e =>
        obtain ⟨⟨hadmits, rfl⟩, hfound⟩ := seen?_eq_some.1 hseen
        obtain ⟨-, hlt, -, -⟩ := hp.over hfound
        rw [findOn_some hy hseen hlt] at h
        rcases List.mem_cons.1 h with rfl | h
        · have hstatement : p.scan.statement = none := by
            rw [Declaration.Scan.admits, Bool.and_eq_true] at hadmits
            simpa using hadmits.1
          exact ⟨p, hp, hy, hstatement, hfound, Nat.le_refl _⟩
        · rw [next_of_seen hy hseen] at hsound
          have hless := Cursor.length_rest_lt hy (Nat.sub_pos_of_lt hlt)
          obtain ⟨q, hq, hdollar, hstatement, hfound, hle⟩ := ih _ (hlength ▸ hless) hsound h rfl
          exact ⟨q, hq, hdollar, hstatement, hfound, Nat.le_trans (Cursor.le_pos_advance _ _) hle⟩

/-- A declaration begins with a dollar sign of the code, at the beginning of a statement. -/
theorem begins_of_mem_find (h : d ∈ Declaration.find t) : (codeMask t)[d.span.start]? = some '$' ∧
    ∀ x, byteBefore (codeMask t) d.span.start = some x → isBlank x = true ∨ x = ';' ∨ x = '\x7b' ∨ x = '\x7d' := by
  obtain ⟨q, hq, hdollar, hstatement, hfound, -⟩ := mem_findOn (sound_place t 0) h
  obtain ⟨hstart, -⟩ := hq.over hfound
  rw [hstart]
  constructor
  · rw [← hq.reads.at.byte?]
    exact hdollar
  · intro x hx
    rw [← byteBefore?_eq hq.reads] at hx
    exact hq.fresh hstatement x hx

/-- **A declaration stands between two places at rest.** -/
theorem rests_of_mem_find (h : d ∈ Declaration.find t) :
    Rests (t.take d.span.start) ∧ Rests (t.take d.span.stop) := by
  obtain ⟨q, hq, hdollar, hstatement, hfound, -⟩ := mem_findOn (sound_place t 0) h
  obtain ⟨hstart, hlt, -, hsemicolon⟩ := hq.over hfound
  refine ⟨?_, ?_⟩
  · rw [hstart]
    exact rests_of_fresh hq hstatement hdollar rfl (by decide)
  · obtain ⟨k, hk⟩ : ∃ k, d.span.stop = k + 1 := ⟨d.span.stop - 1, by omega⟩
    rw [hk] at hsemicolon ⊢
    exact rests_through hsemicolon rfl (by decide) (by decide)

end Flatsheet.Style
