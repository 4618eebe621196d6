import Flatsheet.Proofs.Check.Braces
import Flatsheet.Proofs.Text.LineZones

/-!
# `Proofs.Check.Quotes` — two ways to find an open string

The check for unterminated strings takes a text whose comments are blanked, looks at each line of it alone, and lets
a backslash protect whatever byte is next. The automaton that masks the text reads it as a whole, knows comments
itself, and has a backslash protect neither a NUL byte nor a line feed.

They find the same. On a line they are `InStep` at every byte (`InStep.next`): at worst the check takes a backslash to
protect a byte that needs no protection. So they see the same quote open at the end of the line (`openQuote_piece`),
and since no string goes on behind a line feed, at the end of every line of a text (`openQuotes_eq`).

* `lineNumberAt_lineEnds`: the ends of lines are numbered from one, in order.
* `string_scanners_agree`: the reports are those of the lines at whose end the automaton is inside a string.
-/

namespace Flatsheet.Text

variable {c : Char} {l r t : Text}

/-! ## The ends of lines -/

/-- The offsets at which a line ends: those of the line feeds, and the end of the text. -/
def lineEnds (t : Text) : List Nat := (List.range (t.length + 1)).filter fun k => t[k]? = some '\n' ∨ k = t.length

@[simp] theorem lineEnds_nil : lineEnds [] = [0] := rfl

theorem lineEnds_cons (c : Char) (r : Text) :
    lineEnds (c :: r) = (if c = '\n' then [0] else []) ++ (lineEnds r).map (1 + ·) := by
  have hrange : List.range ((c :: r).length + 1) = [0] ++ (List.range (r.length + 1)).map (1 + ·) := by
    rw [List.length_cons, Nat.add_comm (r.length + 1), List.range_add]
    rfl
  have hbehind : ∀ k, ((c :: r)[1 + k]? = some '\n' ∨ 1 + k = (c :: r).length) ↔
      (r[k]? = some '\n' ∨ k = r.length) := by
    intro k
    rw [Nat.add_comm 1 k, List.getElem?_cons_succ, List.length_cons, Nat.add_right_cancel_iff]
  rw [lineEnds, hrange, List.filter_append, List.filter_map]
  congr 1
  · by_cases hc : c = '\n' <;> simp [hc]
  · rw [lineEnds]
    congr 1
    apply List.filter_congr
    intro k _
    simp only [Function.comp_apply, hbehind]

theorem lineEnds_feed (r : Text) : lineEnds ('\n' :: r) = 0 :: (lineEnds r).map (1 + ·) := lineEnds_cons '\n' r

/-- A line ends where what is behind its bytes ends. -/
theorem lineEnds_append (h : '\n' ∉ l) (r : Text) : lineEnds (l ++ r) = (lineEnds r).map (l.length + ·) := by
  induction l with
  | nil => simp
  | cons c l ih =>
    have hc : c ≠ '\n' := (List.ne_of_not_mem_cons h).symm
    rw [List.cons_append, lineEnds_cons, if_neg hc, List.nil_append, ih (List.not_mem_of_not_mem_cons h), List.map_map]
    congr 1
    funext k
    simp only [Function.comp_apply, List.length_cons]
    omega

/-- **The ends of lines are numbered from one, in order.** -/
theorem lineNumberAt_lineEnds (t : Text) : (lineEnds t).map (lineNumberAt t) = List.range' 1 (lineEnds t).length := by
  have hcount : ∀ n, (lineEnds t).map (fun k => n + (t.take k).count '\n') = List.range' n (lineEnds t).length := by
    induction t with
    | nil => exact fun n => rfl
    | cons c r ih =>
      intro n
      by_cases hc : c = '\n'
      · subst hc
        have hnext : ∀ k, n + (('\n' :: r).take (1 + k)).count '\n' = (n + 1) + (r.take k).count '\n' := by
          intro k
          rw [Nat.add_comm 1 k, List.take_succ_cons, List.count_cons_self]
          omega
        rw [lineEnds_feed, List.map_cons, List.map_map, List.length_cons, List.length_map, List.range'_succ, ← ih]
        simp only [Function.comp_def, hnext]
        rfl
      · have hnext : ∀ k, n + ((c :: r).take (1 + k)).count '\n' = n + (r.take k).count '\n' := by
          intro k
          rw [Nat.add_comm 1 k, List.take_succ_cons, List.count_cons_of_ne hc]
        rw [lineEnds_cons, if_neg hc, List.nil_append, List.map_map, List.length_map, ← ih]
        simp only [Function.comp_def, hnext]
  exact hcount 1

end Flatsheet.Text

namespace Flatsheet.Mask

open Text Check

/-! ## A line -/

/-- The quote of the string that is open in a state. -/
def State.quote? : State → Option Char
  | .string q | .escaped q => some q
  | _ => none

/-- **The two scanners are in step** before the byte `ahead`: the automaton is in a state, and the check has a quote
open or none and takes the byte ahead to be protected or not. -/
inductive InStep (ahead : Option Char) : State → (quote : Option Char) → (escaped : Bool) → Prop
  /-- No string is open. -/
  | outside {s : State} (closed : s.quote? = none) : InStep ahead s none false
  /-- A string is open. -/
  | inside {q : Char} (mark : q = '"' ∨ q = '\'') : InStep ahead (.string q) (some q) false
  /-- Both take the byte ahead to be protected. -/
  | guarded {q : Char} (mark : q = '"' ∨ q = '\'') : InStep ahead (.escaped q) (some q) true
  /-- Only the check takes the byte ahead to be protected, but it needs no protection. -/
  | spared {q : Char} (mark : q = '"' ∨ q = '\'') (spare : protects ahead = false) :
    InStep ahead (.string q) (some q) true

variable {before ahead quote : Option Char} {escaped : Bool} {s : State} {c q : Char} {l r t : Text} {ls : List Text}

/-- In step, both have the same quote open. -/
theorem InStep.same (h : InStep ahead s quote escaped) : quote = s.quote? := by
  cases h with
  | outside closed => exact closed.symm
  | inside | guarded | spared => rfl

theorem Begins.inStep (h : Begins s) : InStep ahead s none false := by
  rcases h with rfl | rfl <;> exact .outside rfl

/-- What the mask that blanks comments shows of a byte. -/
def State.shows (s : State) (before : Option Char) (c : Char) (ahead : Option Char) : Char :=
  if s.blanks .comments c (s.next before c ahead) then ' ' else c

theorem shows_of_blanked (h : s.blanks .comments c (s.next before c ahead) = true) : s.shows before c ahead = ' ' :=
  if_pos h

theorem shows_of_shown (h : s.blanks .comments c (s.next before c ahead) = false) : s.shows before c ahead = c :=
  if_neg (Bool.not_eq_true _ ▸ h)

/-- **In code**, a quote opens a string and is shown, and any other byte opens none. -/
theorem next_code (before : Option Char) (c : Char) (y : Option Char) :
    ((c = '"' ∨ c = '\'') ∧ State.code.next before c y = .string c) ∨
      (c ≠ '"' ∧ c ≠ '\'') ∧ (State.code.next before c y).quote? = none := by
  by_cases hmark : c = '"' ∨ c = '\''
  · refine .inl ⟨hmark, ?_⟩
    rcases hmark with rfl | rfl <;> simp [State.next]
  · refine .inr ⟨not_or.1 hmark, ?_⟩
    by_cases hslash : c = '/'
    · simp only [State.next, hslash]
      split
      · rfl
      · split <;> rfl
    · rw [next_of_plain ⟨hslash, not_or.1 hmark⟩]
      rfl

/-- **Outside strings** the scanners see the same: a quote that opens a string is shown, and no other one is. -/
theorem next_outside (closed : s.quote? = none) (hc : c ≠ '\n') (before y : Option Char) :
    ((c = '"' ∨ c = '\'') ∧ s.next before c y = .string c ∧ s.shows before c y = c) ∨
      (s.next before c y).quote? = none ∧ s.shows before c y ≠ '"' ∧ s.shows before c y ≠ '\'' := by
  -- in a comment nothing is shown
  have hcomment : s.blanks .comments c (s.next before c y) = true → (s.next before c y).quote? = none →
      (s.next before c y).quote? = none ∧ s.shows before c y ≠ '"' ∧ s.shows before c y ≠ '\'' := by
    intro hblanked hopen
    rw [shows_of_blanked hblanked]
    exact ⟨hopen, by decide, by decide⟩
  cases s with
  | code =>
    rcases next_code before c y with ⟨hmark, hnext⟩ | ⟨hmark, hopen⟩
    · exact .inl ⟨hmark, hnext, shows_of_shown (by rw [hnext]; rfl)⟩
    · right
      cases hblanked : State.code.blanks .comments c (State.code.next before c y) with
      | true => exact hcomment hblanked hopen
      | false =>
        rw [shows_of_shown hblanked]
        exact ⟨hopen, hmark⟩
  | opening block => exact .inr (hcomment (by simp [State.blanks, hc]) (by cases block <;> rfl))
  | lineComment => exact .inr (hcomment (by simp [State.blanks, hc]) (by simp only [State.next, if_neg hc]; rfl))
  | blockComment =>
    refine .inr (hcomment (by simp [State.blanks, hc]) ?_)
    simp only [State.next]
    split <;> rfl
  | closing => exact .inr (hcomment (by simp [State.blanks, hc]) rfl)
  | string q | escaped q => cases closed

/-- A byte that ends neither the string nor the line leaves the string open, also a backslash that protects
nothing. -/
theorem next_string (hq : c ≠ q) (hc : c ≠ '\n') (h : c = '\\' → protects ahead = false) :
    (State.string q).next before c ahead = .string q := by
  by_cases hslash : c = '\\'
  · simp [State.next, h hslash, hq, hc]
  · simp [State.next, hslash, hq, hc]

/-- **A byte keeps the scanners in step**, if it is no line feed: the automaton reads the byte, and the check what the
mask shows of it. -/
theorem InStep.next (h : InStep (some c) s quote escaped) (hc : c ≠ '\n') (before y : Option Char) :
    ∃ quote' escaped', InStep y (s.next before c y) quote' escaped' ∧
      ∀ r, openQuote quote escaped (s.shows before c y :: r) = openQuote quote' escaped' r := by
  cases h with
  | outside closed =>
    rcases next_outside closed hc before y with ⟨mark, hnext, hshows⟩ | ⟨hclosed, hdouble, hsingle⟩
    · rw [hnext, hshows]
      exact ⟨some c, false, .inside mark, fun r => by simp [openQuote, mark]⟩
    · exact ⟨none, false, .outside hclosed, fun r => by simp [openQuote, hdouble, hsingle]⟩
  | @inside q mark =>
    rw [shows_of_shown (by simp [State.blanks])]
    have hback : q ≠ '\\' := by
      rintro rfl
      simp at mark
    by_cases hslash : c = '\\'
    · subst hslash
      cases hy : protects y with
      | true =>
        have hnext : (State.string q).next before '\\' y = .escaped q := by simp [State.next, hy]
        rw [hnext]
        exact ⟨some q, true, .guarded mark, fun r => rfl⟩
      | false =>
        rw [next_string hback.symm hc fun _ => hy]
        exact ⟨some q, true, .spared mark hy, fun r => rfl⟩
    · by_cases hq : c = q
      · subst hq
        have hnext : (State.string c).next before c y = .code := by simp [State.next, hslash]
        rw [hnext]
        exact ⟨none, false, .outside rfl, fun r => by simp [openQuote, hslash]⟩
      · rw [next_string hq hc fun h => absurd h hslash]
        exact ⟨some q, false, .inside mark, fun r => by simp [openQuote, hq, hslash]⟩
  | @guarded q mark =>
    rw [shows_of_shown (by simp [State.blanks])]
    exact ⟨some q, false, .inside mark, fun r => rfl⟩
  | @spared q mark spare =>
    -- the byte is a NUL byte, so neither a quote nor a backslash
    have hnul : c = '\x00' := by simpa [protects, hc] using spare
    have hq : c ≠ q := by
      rintro rfl
      simp [hnul] at mark
    rw [next_string hq hc fun h => by simp [hnul] at h]
    exact ⟨some q, false, .inside mark, fun r => rfl⟩

/-- **A line**: the check that reads what the mask shows of it ends with the quote open that the automaton has open. -/
theorem openQuote_piece (h : InStep (l.head?.or ahead) s quote escaped) (hl : '\n' ∉ l) :
    openQuote quote escaped (piece .comments before s ahead l) = (State.after before s ahead l).quote? := by
  induction l generalizing before s quote escaped with
  | nil => exact h.same
  | cons c r ih =>
    have hc : c ≠ '\n' := (List.ne_of_not_mem_cons hl).symm
    rw [List.head?_cons, Option.some_or] at h
    obtain ⟨quote', escaped', hnext, hread⟩ := h.next hc before (r.head?.or ahead)
    exact (hread _).trans (ih hnext (List.not_mem_of_not_mem_cons hl))

/-! ## A text -/

/-- What a mask shows holds no line feed where the text holds none. -/
theorem not_mem_piece (mode : Mode) (hl : '\n' ∉ l) : '\n' ∉ piece mode before s ahead l := by
  induction l generalizing before s with
  | nil => exact List.not_mem_nil
  | cons c r ih =>
    rw [piece, List.mem_cons, not_or]
    refine ⟨?_, ih (List.not_mem_of_not_mem_cons hl)⟩
    split
    · decide
    · exact List.ne_of_not_mem_cons hl

/-- The state at an offset of a text, where the bytes before it have been read from state `s`. -/
def stateAt (before : Option Char) (s : State) (t : Text) (k : Nat) : State := State.after before s t[k]? (t.take k)

theorem stateAt_length (before : Option Char) (s : State) (l r : Text) :
    stateAt before s (l ++ r) l.length = State.after before s r.head? l := by
  rw [stateAt, List.take_left, List.getElem?_append_right (Nat.le_refl _), Nat.sub_self, List.head?_eq_getElem?]

/-- Behind a line feed a text is read from the state there. -/
theorem stateAt_behind (before : Option Char) (s : State) (l r : Text) (k : Nat) :
    stateAt before s (l ++ '\n' :: r) (l.length + (1 + k)) =
      stateAt (some '\n') (State.after before s none (l ++ ['\n'])) r k := by
  have htake : (l ++ '\n' :: r).take (l.length + (1 + k)) = l ++ ['\n'] ++ r.take k := by
    rw [List.take_length_add_append, Nat.add_comm 1 k, List.take_succ_cons, List.append_assoc]
    rfl
  have hget : (l ++ '\n' :: r)[l.length + (1 + k)]? = r[k]? := by
    rw [List.getElem?_append_right (Nat.le_add_right _ _), Nat.add_sub_cancel_left, Nat.add_comm 1 k,
      List.getElem?_cons_succ]
  rw [stateAt, htake, hget, after_append, List.getLast?_concat, after_concat, after_concat, stateAt]
  congr 1

/-- **At the end of each line the check has the quote open that the automaton has open there**, by induction on the
lines: each of them begins in code or in a block comment. -/
theorem openQuotes_eq (hne : ls ≠ []) (hls : ∀ l ∈ ls, '\n' ∉ l) (hs : Begins s) :
    (lines (run .comments before s (unlines ls))).map (openQuote none false) =
      (lineEnds (unlines ls)).map fun k => (stateAt before s (unlines ls) k).quote? := by
  induction ls generalizing before s with
  | nil => exact absurd rfl hne
  | cons l ls ih =>
    have hl : '\n' ∉ l := hls l List.mem_cons_self
    by_cases hlast : ls = []
    · subst hlast
      have hend : lineEnds l = [l.length] := by simpa using lineEnds_append hl []
      have hstate : stateAt before s l l.length = State.after before s none l := by
        simpa using stateAt_length before s l []
      show (lines (run .comments before s l)).map _ = (lineEnds l).map fun k => (stateAt before s l k).quote?
      rw [hend, run_eq_piece, lines, splitOn_of_not_mem (not_mem_piece _ hl), List.map_singleton, List.map_singleton,
        hstate, openQuote_piece hs.inStep hl]
    · -- the state in which the lines behind the first one are read
      obtain ⟨u, hu⟩ : ∃ u, State.after before s none (l ++ ['\n']) = u := ⟨_, rfl⟩
      have hbegins : Begins u := hu ▸ hs.after_line l
      have hrest : (lines (run .comments (some '\n') u (unlines ls))).map (openQuote none false) =
          (lineEnds (unlines ls)).map fun k => (stateAt (some '\n') u (unlines ls) k).quote? :=
        ih hlast (fun m hm => hls m (List.mem_cons_of_mem l hm)) hbegins
      rw [unlines_cons l hlast]
      generalize unlines ls = r at hrest
      have hmasked : lines (run .comments before s (l ++ '\n' :: r)) =
          piece .comments before s (some '\n') l :: lines (run .comments (some '\n') u r) := by
        have hfeed : (State.after before s (some '\n') l).next (l.getLast?.or before) '\n' r.head? = u := by
          rw [← hu, after_concat]
          exact next_feed_congr _
        rw [run_append, run_newline, List.head?_cons, hfeed, lines, splitOn_append_cons,
          splitOn_of_not_mem (not_mem_piece _ hl)]
        rfl
      have hbehind : ∀ k, stateAt before s (l ++ '\n' :: r) (l.length + (1 + k)) = stateAt (some '\n') u r k := by
        intro k
        rw [stateAt_behind, hu]
      rw [hmasked, lineEnds_append hl, lineEnds_feed, List.map_cons, List.map_cons, List.map_cons, Nat.add_zero,
        stateAt_length, openQuote_piece hs.inStep hl, hrest, List.map_map, List.map_map]
      simp only [Function.comp_def, hbehind]
      rfl

end Flatsheet.Mask

namespace Flatsheet.Check

open Text Mask

/-! ## The reports -/

theorem openQuotes_commentMask (t : Text) : (lines (commentMask t)).map (openQuote none false) =
    (lineEnds t).map fun k => (stateAt none .code t k).quote? := by
  have hfeeds : ∀ l ∈ lines t, '\n' ∉ l := fun l hl => not_mem_of_mem_splitOn hl
  have hquotes : (lines (run .comments none .code (unlines (lines t)))).map (openQuote none false) = _ :=
    openQuotes_eq (lines_ne_nil t) hfeeds (.inl rfl)
  rwa [unlines_lines] at hquotes

theorem lines_of_stringIssues (t : Text) : (stringIssues t).map (·.line) =
    (((lines (commentMask t)).map (openQuote none false)).zipIdx 1).filterMap fun p =>
      if p.1.isSome then some (some p.2) else none := by
  -- the check counts lines from zero
  have hshift : (lines (commentMask t)).zipIdx 1 =
      (lines (commentMask t)).zipIdx.map fun p => (p.1, p.2 + 1) := List.zipIdx_succ
  rw [stringIssues, List.map_filterMap, List.zipIdx_map, List.filterMap_map, hshift, List.filterMap_map]
  congr 1
  funext p
  simp only [Function.comp_apply, Prod.map]
  split <;> rfl

/-- **Two string scanners agree.** The lines reported as ending inside a string are, in order and each of them once,
those at whose end the automaton that masks the whole text is inside a string. -/
theorem string_scanners_agree (t : Text) :
    (lineEnds t).map (lineNumberAt t) = List.range' 1 (lines t).length ∧
      ((checkSyntax t).1.issues.filter (·.kind = .unterminatedString)).map (·.line) =
        ((lineEnds t).filter fun k => (stateAt none .code t k).quote?.isSome).map (fun k => some (lineNumberAt t k)) ∧
      ∀ i ∈ (checkSyntax t).1.issues, i.kind = .unterminatedString → i.isError = true := by
  have hquotes := openQuotes_commentMask t
  have hlength : (lineEnds t).length = (lines t).length := by
    have hends : (lines (commentMask t)).length = (lineEnds t).length := by simpa using congrArg List.length hquotes
    have hlines : (lines (commentMask t)).length = (lines t).length := by
      simpa [commentMask] using congrArg List.length (lengths_lines_mask t)
    exact hends.symm.trans hlines
  have hnumbers := lineNumberAt_lineEnds t
  refine ⟨by rw [hnumbers, hlength], ?_, ?_⟩
  · rw [issues_unterminatedString, lines_of_stringIssues, hquotes, List.zipIdx_eq_zip_range', List.length_map,
      ← hnumbers, List.zip_map', List.filterMap_map, ← List.filterMap_eq_map, ← List.filterMap_eq_filter,
      List.filterMap_filterMap]
    congr 1
    funext k
    cases hquote : (stateAt none .code t k).quote? <;> simp [hquote, Option.guard]
  · intro i _ hkind
    rw [Issue.isError, hkind]
    rfl

end Flatsheet.Check
