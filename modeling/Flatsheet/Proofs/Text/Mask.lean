import Flatsheet.Proofs.Text.Lines
import Flatsheet.Text.Mask

/-!
# `Proofs.Text.Mask` — masks of pieces of a text

The automaton looks one byte ahead and one byte back, so the mask of a text is not put together from the
masks of its pieces as they are. `Mask.piece` is the mask of a piece that a given byte follows, and with it
masks can be cut anywhere (`run_append`).

What the byte ahead can change about a piece is little: unless it completes a mark of two bytes, the mask
is the same (`piece_of_inert`). A line feed is never blanked, so a mask has the lines of its text
(`lengths_lines_mask`).
-/

namespace Flatsheet

open Text

namespace Mask

variable {mode : Mode} {before before' ahead ahead' : Option Char} {s : State} {c : Char}

/-! ## Pieces -/

/-- The mask of a piece of text, read from state `s` after the byte `before`, that `ahead` follows. -/
def piece (mode : Mode) (before : Option Char) (s : State) (ahead : Option Char) : Text → Text
  | [] => []
  | c :: r =>
    let t := s.next before c (r.head?.or ahead)
    (if s.blanks mode c t then ' ' else c) :: piece mode (some c) t ahead r

theorem length_piece (a : Text) : (piece mode before s ahead a).length = a.length := by
  induction a generalizing before s with
  | nil => rfl
  | cons c r ih => rw [piece, List.length_cons, List.length_cons, ih]

theorem run_eq_piece (t : Text) : run mode before s t = piece mode before s none t := by
  induction t generalizing before s with
  | nil => rfl
  | cons c r ih => rw [run, piece, ih, Option.or_none]

/-- The byte before what follows a text. -/
theorem getLast?_cons_or (before : Option Char) (c : Char) (r : Text) :
    (c :: r).getLast?.or before = r.getLast?.or (some c) := by
  rw [List.getLast?_cons]
  cases r.getLast? <;> rfl

theorem run_append (a b : Text) : run mode before s (a ++ b) =
    piece mode before s b.head? a ++
      run mode (a.getLast?.or before) (State.after before s b.head? a) b := by
  induction a generalizing before s with
  | nil => rfl
  | cons c r ih =>
    rw [List.cons_append, run, List.head?_append, ih, piece, State.after, getLast?_cons_or]
    rfl

theorem piece_append (a b : Text) : piece mode before s ahead (a ++ b) =
    piece mode before s (b.head?.or ahead) a ++
      piece mode (a.getLast?.or before) (State.after before s (b.head?.or ahead) a) ahead b := by
  induction a generalizing before s with
  | nil => rfl
  | cons c r ih =>
    rw [List.cons_append, piece, List.head?_append, Option.or_assoc, ih, piece, State.after, getLast?_cons_or]
    rfl

theorem after_append (a b : Text) : State.after before s ahead (a ++ b) =
    State.after (a.getLast?.or before) (State.after before s (b.head?.or ahead) a) ahead b := by
  induction a generalizing before s with
  | nil => rfl
  | cons c r ih =>
    rw [List.cons_append, State.after, List.head?_append, Option.or_assoc, ih, State.after, getLast?_cons_or]

/-- The last byte of a piece. -/
theorem after_concat (a : Text) (c : Char) : State.after before s ahead (a ++ [c]) =
    (State.after before s (some c) a).next (a.getLast?.or before) c ahead := by
  rw [after_append]
  rfl

/-! ## The byte before -/

/-- The byte before matters for a slash only, and only if it is a colon. -/
theorem next_congr_before (h : c = '/' → (before = some ':' ↔ before' = some ':')) :
    s.next before c ahead = s.next before' c ahead := by
  cases s with
  | code =>
    by_cases hc : c = '/'
    · have hiff := h hc
      by_cases hb : before = some ':'
      · simp [State.next, hb, hiff.1 hb]
      · have hb' : before' ≠ some ':' := fun he => hb (hiff.2 he)
        simp [State.next, hb, hb']
    · simp [State.next, hc]
  | opening block => cases block <;> rfl
  | _ => rfl

theorem run_congr_before {t : Text} (h : t.head? = some '/' → (before = some ':' ↔ before' = some ':')) :
    run mode before s t = run mode before' s t := by
  cases t with
  | nil => rfl
  | cons c r =>
    have hnext : s.next before c r.head? = s.next before' c r.head? :=
      next_congr_before fun hc => h (congrArg some hc)
    rw [run, run, hnext]

theorem after_congr_before {t : Text}
    (h : t.head? = some '/' → (before = some ':' ↔ before' = some ':')) :
    State.after before s ahead t = State.after before' s ahead t := by
  cases t with
  | nil => rfl
  | cons c r =>
    have hnext : s.next before c (r.head?.or ahead) = s.next before' c (r.head?.or ahead) :=
      next_congr_before fun hc => h (congrArg some hc)
    rw [State.after, State.after, hnext]

/-! ## Line feeds -/

theorem blanks_newline : s.blanks mode '\n' (s.next before '\n' ahead) = false := by
  cases s with
  | code => simp [State.blanks, State.next]
  | _ => simp [State.blanks]

theorem run_newline (r : Text) : run mode before s ('\n' :: r) =
    '\n' :: run mode (some '\n') (s.next before '\n' r.head?) r := by
  rw [run, blanks_newline, if_neg Bool.false_ne_true]

theorem lengths_lines_run (t : Text) :
    (lines (run mode before s t)).map List.length = (lines t).map List.length := by
  induction t generalizing before s with
  | nil => rfl
  | cons c r ih =>
    by_cases hc : c = '\n'
    · rw [hc, run_newline, lines, lines, splitOn, splitOn, if_pos rfl, if_pos rfl, List.map_cons,
        List.map_cons]
      exact congrArg _ ih
    · rw [run]
      have hmasked : (if s.blanks mode c (s.next before c r.head?) then ' ' else c) ≠ '\n' := by
        split
        · decide
        · exact hc
      obtain ⟨p, ps, hr, hcr⟩ := splitOn_cons_of_ne hc r
      obtain ⟨q, qs, hm, hcm⟩ := splitOn_cons_of_ne hmasked (run mode (some c) (s.next before c r.head?) r)
      have hrest : (q :: qs).map List.length = (p :: ps).map List.length := by
        rw [← hr, ← hm]
        exact ih
      simp only [List.map_cons, List.cons.injEq] at hrest
      rw [lines, lines, hcr, hcm]
      simp [hrest.1, hrest.2]

/-- **The lines of a mask are as many and as long as those of its text.** -/
theorem lengths_lines_mask (t : Text) :
    (lines (mask mode t)).map List.length = (lines t).map List.length := lengths_lines_run t

/-! ## The byte ahead -/

/-- A string is open between quotes only. -/
def State.Quoted : State → Prop
  | .string q => q = '"' ∨ q = '\''
  | .escaped q => q = '"' ∨ q = '\''
  | _ => True

theorem quoted_code : State.code.Quoted := trivial

theorem State.Quoted.next (h : s.Quoted) : (s.next before c ahead).Quoted := by
  cases s with
  | code =>
    rw [State.next]
    split
    · trivial
    · split
      · trivial
      · split
        · next hc => simpa [Quoted] using hc
        · trivial
  | opening block => cases block <;> trivial
  | lineComment =>
    rw [State.next]
    split <;> trivial
  | blockComment =>
    rw [State.next]
    split <;> trivial
  | closing => trivial
  | string q =>
    rw [State.next]
    split
    · exact h
    · split
      · trivial
      · exact h
  | escaped q => exact h

theorem State.Quoted.after (h : s.Quoted) (a : Text) : (State.after before s ahead a).Quoted := by
  induction a generalizing before s with
  | nil => exact h
  | cons c r ih => exact ih h.next

/-- The byte ahead does not complete a mark of two bytes. -/
def Inert (ahead : Option Char) : Prop := ahead ≠ some '*' ∧ ahead ≠ some '/'

theorem inert_of_blank {x : Char} (h : isBlank x = true) : Inert (some x) := by
  constructor <;> (rintro ⟨⟩; exact absurd h (by decide))

theorem inert_none : Inert none := ⟨nofun, nofun⟩

/-- Which of such bytes is ahead makes no difference to what is blanked. -/
theorem blanks_of_inert (hs : s.Quoted) (h : Inert ahead) (h' : Inert ahead') :
    s.blanks mode c (s.next before c ahead) = s.blanks mode c (s.next before c ahead') := by
  cases s with
  | code => simp [State.blanks, State.next, h.1, h.2, h'.1, h'.2]
  | string q =>
    -- an open string stays open, whether or not a backslash protects the byte ahead
    have hslash : c = '\\' → ¬ (c = q ∨ c = '\n') := by
      rintro rfl
      rcases hs with rfl | rfl <;> decide
    by_cases hc : c = '\\'
    · have hopen := hslash hc
      subst hc
      simp only [State.blanks, State.next, decide_true, Bool.true_and]
      cases protects ahead <;> cases protects ahead' <;> simp_all
    · simp [State.blanks, State.next, hc]
  | _ => rfl

/-- **The mask of a piece is the same whatever inert byte follows.** -/
theorem piece_of_inert (hs : s.Quoted) (h : Inert ahead) (h' : Inert ahead') (a : Text) :
    piece mode before s ahead a = piece mode before s ahead' a := by
  rcases List.eq_nil_or_concat a with rfl | ⟨a, c, rfl⟩
  · rfl
  · have hquoted : (State.after before s (some c) a).Quoted := hs.after a
    have hlast : (State.after before s (some c) a).blanks mode c
          ((State.after before s (some c) a).next (a.getLast?.or before) c ahead) =
        (State.after before s (some c) a).blanks mode c
          ((State.after before s (some c) a).next (a.getLast?.or before) c ahead') :=
      blanks_of_inert hquoted h h'
    rw [List.concat_eq_append, piece_append, piece_append]
    simp only [List.head?_cons, Option.some_or, piece, List.head?_nil, Option.none_or, hlast]
    rfl

/-- In code, where no mark of two bytes begins, at most a string does. -/
theorem next_code_cases (before : Option Char) (c : Char) (h : Inert ahead) : State.code.next before c ahead = .code ∨
    ∃ q, (q = '"' ∨ q = '\'') ∧ State.code.next before c ahead = .string q := by
  by_cases hc : c = '"' ∨ c = '\''
  · exact .inr ⟨c, hc, by simp [State.next, h.1, h.2, hc]⟩
  · exact .inl (by simp [State.next, h.1, h.2, hc])

theorem next_code_of_blank {x : Char} (hx : isBlank x = true) : State.code.next before x ahead = .code := by
  have hslash : x ≠ '/' := by
    rintro rfl
    cases hx
  have hquote : ¬ (x = '"' ∨ x = '\'') := by
    rintro (rfl | rfl) <;> cases hx
  simpa [State.next, hslash] using hquote

/-- A blank that is no line feed leaves a string open. -/
theorem next_string_of_blank {q x : Char} (hq : q = '"' ∨ q = '\'') (hx : isBlank x = true) (stays : x ≠ '\n') :
    (State.string q).next before x ahead = .string q := by
  have hback : x ≠ '\\' := by
    rintro rfl
    cases hx
  have hquote : x ≠ q := by
    rcases hq with rfl | rfl <;> (rintro rfl; cases hx)
  simp [State.next, hback, hquote, stays]

/-- **A blank at the end of a line does not matter to what comes after it.** -/
theorem next_next_of_blank {p p' : Option Char} {x : Char} (hs : s.Quoted) (hx : isBlank x = true)
    (stays : x ≠ '\n') :
    (s.next p c (some x)).next p' x (some '\n') = s.next p c (some '\n') := by
  have hinert := inert_of_blank hx
  cases s with
  | code =>
    have hsame : State.code.next p c (some x) = State.code.next p c (some '\n') := by
      simp [State.next, hinert.1, hinert.2]
    rw [← hsame]
    rcases next_code_cases p c hinert with h | ⟨q, hq, h⟩
    · rw [h]
      exact next_code_of_blank hx
    · rw [h]
      exact next_string_of_blank hq hx stays
  | opening block =>
    have hstar : x ≠ '*' := fun h => hinert.1 (congrArg some h)
    cases block
    · simp [State.next, stays]
    · simp [State.next, hstar]
  | lineComment =>
    have hnext : ∀ y, State.lineComment.next p c y = if c = '\n' then .code else .lineComment := fun _ => rfl
    rw [hnext, hnext]
    split
    · exact next_code_of_blank hx
    · simp [State.next, stays]
  | blockComment =>
    have hstar : x ≠ '*' := fun h => hinert.1 (congrArg some h)
    simp [State.next, hstar, hinert.2]
  | closing => exact next_code_of_blank hx
  | string q =>
    have hq : q = '"' ∨ q = '\'' := hs
    by_cases hc : c = '\\'
    · have hprotected : protects (some x) = true := by
        have hnul : x ≠ '\x00' := by
          rintro rfl
          cases hx
        simp [protects, hnul, stays]
      have hopen : ¬ (c = q ∨ c = '\n') := by
        subst hc
        rcases hq with rfl | rfl <;> decide
      simp_all [State.next, protects]
    · have hnext : ∀ y, (State.string q).next p c y = if c = q ∨ c = '\n' then .code else .string q := by
        intro y
        simp [State.next, hc]
      rw [hnext, hnext]
      split
      · exact next_code_of_blank hx
      · exact next_string_of_blank hq hx stays
  | escaped q => exact next_string_of_blank hs hx stays

/-- The state at the end of a line without the blank at its end. -/
theorem after_blank {x : Char} (hx : isBlank x = true) (stays : x ≠ '\n') (a : Text) :
    (State.after none .code (some x) a).next before x (some '\n') =
      State.after none .code (some '\n') a := by
  rcases List.eq_nil_or_concat a with rfl | ⟨a, c, rfl⟩
  · exact next_code_of_blank hx
  · have hquoted : (State.after none .code (some c) a).Quoted :=
      State.Quoted.after quoted_code a
    rw [List.concat_eq_append, after_concat, after_concat]
    exact next_next_of_blank hquoted hx stays

/-- After a line feed ahead of which nothing is protected, another line feed changes nothing. -/
theorem next_newline_newline (hs : s.Quoted) (y z z' : Option Char) {p p' : Option Char} :
    (((s.next before c (some '\n')).next p '\n' y).next p' '\n' z) =
      (s.next before c (some '\n')).next p '\n' z' := by
  have hcode : ∀ {a w : Option Char}, State.code.next a '\n' w = .code := by simp [State.next]
  have hstring : ∀ {q : Char} {a w : Option Char}, (State.string q).next a '\n' w = .code := by
    simp [State.next]
  cases s with
  | code =>
    have hinert : Inert (some '\n') := ⟨by decide, by decide⟩
    rcases next_code_cases before c hinert with h | ⟨q, -, h⟩
    · simp only [h, hcode]
    · simp only [h, hstring, hcode]
  | opening block =>
    cases block
    · simp [State.next]
    · simp [State.next]
  | lineComment =>
    by_cases hc : c = '\n'
    · simp [State.next, hc]
    · simp [State.next, hc]
  | blockComment => simp [State.next]
  | closing => simp [State.next]
  | string q =>
    -- a line feed is not protected, so the backslash before it is an ordinary byte
    have hnext : (State.string q).next before c (some '\n') = .code ∨
        (State.string q).next before c (some '\n') = .string q := by
      by_cases hc : c = q ∨ c = '\n'
      · exact .inl (by simp [State.next, protects, hc])
      · exact .inr (by simp [State.next, protects, hc])
    rcases hnext with h | h
    · simp only [h, hcode]
    · simp only [h, hstring, hcode]
  | escaped q =>
    have hnext : (State.escaped q).next before c (some '\n') = .string q := rfl
    simp only [hnext, hstring, hcode]

/-- **The state after an empty line is that before it.** -/
theorem after_newlines (a : Text) (y z z' : Option Char) {p p' : Option Char} :
    ((State.after none .code (some '\n') a).next p '\n' y).next p' '\n' z =
      (State.after none .code (some '\n') a).next p '\n' z' := by
  rcases List.eq_nil_or_concat a with rfl | ⟨a, c, rfl⟩
  · simp [State.after, State.next]
  · have hquoted : (State.after none .code (some c) a).Quoted :=
      State.Quoted.after quoted_code a
    rw [List.concat_eq_append, after_concat]
    exact next_newline_newline hquoted y z z'

end Mask

end Flatsheet
