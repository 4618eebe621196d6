import Flatsheet.Proofs.Text.Zones

/-!
# `Proofs.Text.LineZones` — reading a text line by line

Only a block comment goes on behind a line feed (`next_feed`), so a line begins in code or in a block comment
(`Begins.after_line`). From that state it can be read without the others: `lineZones` are the zones of its bytes, and
`lineEnd` is the state in which the next line begins. The zones of a text are those of its lines, one after the other
(`zones_unlines`).

A mild byte that is put into a line, between bytes that are not linked, changes neither the zones of the others nor the
state at the end (`lineZones_put`).
-/

namespace Flatsheet.Mask

open Text

variable {before ahead ahead' y : Option Char} {s : State} {c x : Char} {a l r : Text} {ls : List Text}

/-! ## Lines -/

theorem unlines_concat_nil (ls : List Text) : unlines (ls ++ [[]]) = ended ls := by
  induction ls with
  | nil => rfl
  | cons l ls ih => rw [List.cons_append, unlines_cons l (by simp), ih, ended_cons]

theorem ended_eq_unlines {ls : List Text} (h : ls ≠ []) : ended ls = unlines ls ++ ['\n'] := by
  induction ls with
  | nil => exact absurd rfl h
  | cons l ls ih =>
    by_cases hls : ls = []
    · rw [hls]
      exact ended_singleton l
    · rw [ended_cons, ih hls, unlines_cons l hls, List.append_assoc, List.cons_append]

/-- A line feed at the end of a text is no brace. -/
theorem net_zones_concat (t : Text) : net (zones (t ++ ['\n'])) = net (zones t) := by
  have hfeed : ∀ z, net [('\n', z)] = 0 := fun z => net_of_ne fun _ => by decide
  have hsame : zoned none .code (some '\n') t = zones t := zoned_of_inert quoted_code (inert_of_blank rfl) inert_none t
  rw [zones, zoned_append, net_append, List.head?_cons, Option.some_or, hsame]
  simp only [zoned, hfeed, Int.add_zero]

/-- The end of a text is as good as a line feed. -/
theorem after_none (a : Text) : State.after before s none a = State.after before s (some '\n') a := by
  rcases List.eq_nil_or_concat a with rfl | ⟨a, x, rfl⟩
  · rfl
  · rw [List.concat_eq_append, after_concat, after_concat]
    cases State.after before s (some x) a with
    | opening block => cases block <;> rfl
    | _ => simp [State.next, protects]

/-- Only a block comment goes on behind a line feed. -/
theorem next_feed (p y : Option Char) : s.next before c (some '\n') = .blockComment ∨
    (s.next before c (some '\n')).next p '\n' y = .code := by
  have hcode : ∀ {t : State}, t = .code ∨ t = .lineComment ∨ (∃ q, t = .string q) → t.next p '\n' y = .code := by
    rintro t (rfl | rfl | ⟨q, rfl⟩) <;> simp [State.next]
  cases s with
  | code =>
    refine .inr (hcode ?_)
    simp only [State.next, Option.some.injEq]
    by_cases hquote : c = '"' ∨ c = '\''
    · exact .inr (.inr ⟨c, by simp [hquote]⟩)
    · exact .inl (by simp [hquote])
  | opening block =>
    cases block
    · exact .inr (hcode (.inr (.inl rfl)))
    · exact .inl rfl
  | lineComment =>
    refine .inr (hcode ?_)
    simp only [State.next]
    by_cases hline : c = '\n' <;> simp [hline]
  | blockComment => exact .inl (by simp [State.next])
  | closing => exact .inr (hcode (.inl rfl))
  | string q =>
    refine .inr (hcode ?_)
    simp only [State.next, protects]
    by_cases hend : c = q ∨ c = '\n' <;> simp [hend]
  | escaped q => exact .inr (hcode (.inr (.inr ⟨q, rfl⟩)))

theorem Begins.after_feed (h : Begins s) (l : Text) (y : Option Char) :
    State.after before s (some '\n') l = .blockComment ∨ State.after before s y (l ++ ['\n']) = .code := by
  rcases List.eq_nil_or_concat l with rfl | ⟨l, x, rfl⟩
  · rcases h with rfl | rfl
    · exact .inr (by simp [State.after, State.next])
    · exact .inl rfl
  · rw [List.concat_eq_append, after_concat, after_concat, after_concat]
    exact next_feed _ y

/-- **A line begins in code or in a block comment.** -/
theorem Begins.after_line (h : Begins s) (l : Text) : Begins (State.after before s y (l ++ ['\n'])) := by
  rcases h.after_feed l y with hcomment | hcode
  · right
    rw [after_concat, hcomment]
    simp [State.next]
  · exact .inl hcode

/-- Behind lines a text goes on in code or in a block comment. -/
theorem Begins.after_ended (h : Begins s) (ls : List Text) : Begins (State.after before s y (ended ls)) := by
  induction ls generalizing before s with
  | nil => exact h
  | cons l ls ih =>
    rw [ended_cons, ← List.singleton_append, ← List.append_assoc, after_append]
    exact ih (h.after_line l)

/-! ## The zones of a line -/

/-- What is ahead of a line feed makes no difference to it. -/
theorem next_feed_congr (p : Option Char) : s.next p '\n' ahead = s.next p '\n' ahead' := by
  cases s with
  | opening block => cases block <;> rfl
  | _ => simp [State.next]

theorem zoned_feed (a : Text) : zoned before s ahead (a ++ ['\n']) = zoned before s (some '\n') a ++ [('\n', .code)] := by
  have hcode : ∀ {t : State} {p : Option Char}, t.zone '\n' (t.next p '\n' ahead) = .code :=
    zone_eq_code_iff.2 blanks_newline
  rw [zoned_append]
  simp only [zoned, List.head?_cons, List.head?_nil, Option.some_or, Option.none_or, hcode]

/-- The zones of a line that is read from state `s`. -/
def lineZones (s : State) (l : Text) : List (Char × Zone) := zoned (some '\n') s (some '\n') l

/-- The state in which the line behind it begins. -/
def lineEnd (s : State) (l : Text) : State := State.after (some '\n') s none (l ++ ['\n'])

theorem Begins.lineEnd (h : Begins s) (l : Text) : Begins (lineEnd s l) := h.after_line l

/-- What stands behind a line makes no difference to the state there. -/
theorem after_line (s : State) (l : Text) (y : Option Char) : State.after (some '\n') s y (l ++ ['\n']) = lineEnd s l := by
  rw [lineEnd, after_concat, after_concat]
  exact next_feed_congr _

/-- The first line of a text begins in code. -/
theorem zones_eq_lineZones (l : Text) : zones l = lineZones .code l := by
  have hfirst : zoned none .code none l = zoned (some '\n') .code none l := zoned_congr_before fun _ => by simp
  rw [zones, hfirst, lineZones]
  exact zoned_of_inert quoted_code inert_none (inert_of_blank rfl) l

theorem map_fst_lineZones (s : State) (l : Text) : (lineZones s l).map Prod.fst = l := map_fst_zoned l

theorem lineZones_append (s : State) (a r : Text) : lineZones s (a ++ r) =
    zoned (some '\n') s (r.head?.or (some '\n')) a ++
      zoned (a.getLast?.or (some '\n')) (State.after (some '\n') s (r.head?.or (some '\n')) a) (some '\n') r :=
  zoned_append a r

theorem head?_feed (r : Text) : (r ++ ['\n']).head?.or none = r.head?.or (some '\n') := by
  cases r <;> rfl

theorem lineEnd_append (s : State) (a r : Text) : lineEnd s (a ++ r) = State.after (a.getLast?.or (some '\n'))
    (State.after (some '\n') s (r.head?.or (some '\n')) a) none (r ++ ['\n']) := by
  rw [lineEnd, List.append_assoc, after_append, head?_feed]

/-- At the ends of a line nothing is linked. -/
theorem not_linked_ends (h : ¬ Linked a.getLast? r.head?) :
    ¬ Linked (a.getLast?.or (some '\n')) (r ++ ['\n']).head? := by
  cases ha : a.getLast? with
  | none => simp [Linked]
  | some x =>
    rw [ha] at h
    cases r with
    | nil => simp [Linked]
    | cons y r => exact h

/-- **A mild byte put into a line** changes neither the zones of the other bytes nor the state behind the line. -/
theorem lineZones_put (hs : Begins s) (hc : Mild c) (h : ¬ Linked a.getLast? r.head?) :
    (∃ z v w, lineZones s (a ++ c :: r) = v ++ (c, z) :: w ∧ lineZones s (a ++ r) = v ++ w ∧
      v.map Prod.fst = a ∧ w.map Prod.fst = r) ∧ lineEnd s (a ++ c :: r) = lineEnd s (a ++ r) := by
  have hnil : r ++ ['\n'] ≠ [] := List.append_ne_nil_of_right_ne_nil r (List.cons_ne_nil '\n' [])
  obtain ⟨⟨z, hz⟩, hafter⟩ : (∃ z, zoned (some '\n') s none (a ++ c :: (r ++ ['\n'])) =
        zoned (some '\n') s (r ++ ['\n']).head? a ++ (c, z) :: zoned (a.getLast?.or (some '\n'))
          (State.after (some '\n') s (r ++ ['\n']).head? a) none (r ++ ['\n'])) ∧
      State.after (some '\n') s none (a ++ c :: (r ++ ['\n'])) = State.after (some '\n') s none (a ++ (r ++ ['\n'])) :=
    zoned_put hs.quoted (fun _ => hs) hc hnil (not_linked_ends h)
  have hwith : a ++ c :: (r ++ ['\n']) = (a ++ c :: r) ++ ['\n'] := by simp
  have hwithout : a ++ (r ++ ['\n']) = (a ++ r) ++ ['\n'] := by simp
  rw [zoned_feed] at hz
  -- the zones of a line are those before its line feed
  have hfeed : ∀ t, lineZones s t ++ [('\n', .code)] = zoned (some '\n') s none (t ++ ['\n']) := by
    intro t
    rw [zoned_feed, lineZones]
  refine ⟨⟨z, zoned (some '\n') s (r ++ ['\n']).head? a, zoned (a.getLast?.or (some '\n'))
    (State.after (some '\n') s (r ++ ['\n']).head? a) (some '\n') r, ?_, ?_, map_fst_zoned a, map_fst_zoned r⟩, ?_⟩
  · rw [← List.append_left_inj [('\n', Zone.code)], hfeed, ← hwith, hz, List.append_assoc, List.cons_append]
  · rw [← List.append_left_inj [('\n', Zone.code)], hfeed, ← hwithout, zoned_append, Option.or_none, zoned_feed,
      List.append_assoc]
  · rw [lineEnd, lineEnd, ← hwith, ← hwithout, hafter]

/-! ## The zones of a text -/

/-- The zones of lines with a line feed between each two, the first of which is read from state `s`. -/
def zonesOfLines (s : State) : List Text → List (Char × Zone)
  | [] => []
  | [l] => lineZones s l
  | l :: ls => lineZones s l ++ ('\n', .code) :: zonesOfLines (lineEnd s l) ls

theorem zonesOfLines_cons (s : State) (l : Text) (h : ls ≠ []) :
    zonesOfLines s (l :: ls) = lineZones s l ++ ('\n', .code) :: zonesOfLines (lineEnd s l) ls := by
  cases ls with
  | nil => exact absurd rfl h
  | cons m ls => rfl

/-- **The zones of a text are those of its lines.** -/
theorem zones_unlines (ls : List Text) : zones (unlines ls) = zonesOfLines .code ls := by
  have hlines : ∀ s, Begins s → zoned (some '\n') s none (unlines ls) = zonesOfLines s ls := by
    induction ls with
    | nil => exact fun _ _ => rfl
    | cons l ls ih =>
      intro s hs
      by_cases hls : ls = []
      · rw [hls]
        exact zoned_of_inert hs.quoted inert_none (inert_of_blank rfl) l
      · have hrest := ih (lineEnd s l) (hs.lineEnd l)
        have hcut : unlines (l :: ls) = (l ++ ['\n']) ++ unlines ls := by
          rw [unlines_cons l hls, List.append_assoc]
          rfl
        rw [hcut, zoned_append, zoned_feed, after_line, List.getLast?_concat, Option.some_or, hrest,
          zonesOfLines_cons s l hls, List.append_assoc]
        rfl
  rw [← hlines .code (.inl rfl)]
  exact zoned_congr_before fun _ => by simp

/-- **A whole text with a mild byte put in.** -/
theorem zones_put (hc : Mild c) (h : ¬ Linked a.getLast? r.head?) : ∃ z v w, zones (a ++ c :: r) = v ++ (c, z) :: w ∧
    zones (a ++ r) = v ++ w ∧ v.map Prod.fst = a ∧ w.map Prod.fst = r := by
  rw [zones_eq_lineZones, zones_eq_lineZones]
  exact (lineZones_put (.inl rfl) hc h).1

/-- The state in which a text is left behind lines, the first of which begins in state `s`. -/
def entry (s : State) (ls : List Text) : State := ls.foldl lineEnd s

theorem entry_eq (ls : List Text) : entry .code ls = State.after none .code none (ended ls) := by
  have hafter : ∀ s, entry s ls = State.after (some '\n') s none (ended ls) := by
    induction ls with
    | nil => exact fun _ => rfl
    | cons l ls ih =>
      intro s
      have hcut : ended (l :: ls) = (l ++ ['\n']) ++ ended ls := by
        rw [ended_cons, List.append_assoc]
        rfl
      rw [hcut, after_append, after_line, List.getLast?_concat, Option.some_or, ← ih]
      rfl
  rw [hafter]
  exact after_congr_before fun _ => by simp

end Flatsheet.Mask
