import Flatsheet.Proofs.Text.Seam
import Flatsheet.Style.Hoist

/-!
# `Proofs.Style.OneLine` — a value that is put on one line

Where a value is written over several lines, its line breaks do work: they end comments, and they cut strings
short that nobody has closed. On one line they do not. A value that has no use for its line breaks
(`fitsOnLine`) reads on one line as it did before, and nothing is open at its end (`after_joinLineBreaks`).

The proof goes along the value. What has been written so far is read by the automaton too. As long as no line
break is pending it is in the state in which the value itself is read. While one is pending, a blank may still
have to be written, and the state is only that behind such a blank (`State.rested`).
-/

namespace Flatsheet

open Text

namespace Mask

variable {s : State} {before ahead ahead' : Option Char} {c x : Char} {out : Text}

/-! ## Single bytes -/

/-- Which byte is ahead matters only to a mark and behind a backslash. -/
theorem next_congr_ahead (h : Inert ahead) (h' : Inert ahead') (hprotects : protects ahead = protects ahead') :
    s.next before c ahead = s.next before c ahead' := by
  cases s with
  | code => simp [State.next, h.1, h.2, h'.1, h'.2]
  | opening block => cases block <;> rfl
  | lineComment => rfl
  | blockComment => simp [State.next, h.2, h'.2]
  | closing => rfl
  | string q => simp [State.next, hprotects]
  | escaped q => rfl

/-- A mark is begun only before the byte that completes it. -/
theorem next_of_inert (h : Inert ahead) :
    (∀ b, s.next before c ahead ≠ .opening b) ∧ s.next before c ahead ≠ .closing := by
  cases s with
  | code =>
    simp only [State.next, h.1, h.2, decide_false, Bool.and_false, Bool.false_and, Bool.false_eq_true, if_false]
    split <;> simp
  | opening block => cases block <;> simp [State.next]
  | lineComment =>
    rw [State.next]
    split <;> simp
  | blockComment => simp [State.next, h.2]
  | closing => simp [State.next]
  | string q =>
    rw [State.next]
    split
    · simp
    · split <;> simp
  | escaped q => simp [State.next]

/-- The state after a byte that has no part in marks, strings and lines. -/
def State.rested : State → State
  | .escaped q => .string q
  | s => s

/-- A byte that opens and closes nothing. -/
def Idle (x : Char) : Prop := x ≠ '/' ∧ x ≠ '*' ∧ x ≠ '"' ∧ x ≠ '\'' ∧ x ≠ '\\'

instance (x : Char) : Decidable (Idle x) := inferInstanceAs (Decidable (_ ∧ _))

theorem idle_of_blank (h : isBlank x = true) : Idle x := by
  refine ⟨?_, ?_, ?_, ?_, ?_⟩ <;> (rintro rfl; cases h)

/-- **An idle byte changes nothing**, unless it ends a line or a mark has been begun. -/
theorem next_of_idle (hs : s.Quoted) (hopening : ∀ b, s ≠ .opening b) (hclosing : s ≠ .closing) (hx : Idle x)
    (hline : x = '\n' → s ≠ .lineComment ∧ ∀ q, s ≠ .string q) : s.next before x ahead = s.rested := by
  obtain ⟨hslash, hstar, hdouble, hsingle, hback⟩ := hx
  cases s with
  | code => simp [State.next, State.rested, hslash, hdouble, hsingle]
  | opening block => exact absurd rfl (hopening block)
  | lineComment =>
    have hstays : x ≠ '\n' := fun hx => (hline hx).1 rfl
    simp [State.next, State.rested, hstays]
  | blockComment => simp [State.next, State.rested, hstar]
  | closing => exact absurd rfl hclosing
  | string q =>
    have hstays : x ≠ '\n' := fun hx => (hline hx).2 q rfl
    have hquote : x ≠ q := by
      rcases hs with rfl | rfl
      · exact hdouble
      · exact hsingle
    simp [State.next, State.rested, hback, hquote, hstays]
  | escaped q => rfl

/-! ## What has been written -/

/-- The state behind the bytes written so far, the last one first. -/
def written (out : Text) (ahead : Option Char) : State := State.after none .code ahead out.reverse

theorem written_cons (c : Char) (out : Text) (ahead : Option Char) :
    written (c :: out) ahead = (written out (some c)).next out.head? c ahead := by
  rw [written, List.reverse_cons, after_concat, List.getLast?_reverse, Option.or_none]
  rfl

theorem quoted_written (out : Text) (ahead : Option Char) : (written out ahead).Quoted :=
  State.Quoted.after quoted_code _

theorem written_congr (out : Text) (h : Inert ahead) (h' : Inert ahead') (hprotects : protects ahead = protects ahead') :
    written out ahead = written out ahead' := by
  cases out with
  | nil => rfl
  | cons c out =>
    rw [written_cons, written_cons]
    exact next_congr_ahead h h' hprotects

theorem written_of_inert (out : Text) (h : Inert ahead) :
    (∀ b, written out ahead ≠ .opening b) ∧ written out ahead ≠ .closing := by
  cases out with
  | nil => exact ⟨nofun, nofun⟩
  | cons c out =>
    rw [written_cons]
    exact next_of_inert h

theorem rested_rested (s : State) : s.rested.rested = s.rested := by
  cases s <;> rfl

/-- Behind a parenthesis it does not matter what is ahead. -/
theorem written_parenthesis (out : Text) (ahead : Option Char) :
    written ('(' :: out) ahead = (written out (some '(')).rested := by
  have hinert : Inert (some '(') := ⟨by decide, by decide⟩
  obtain ⟨hopening, hclosing⟩ := written_of_inert out hinert
  rw [written_cons]
  exact next_of_idle (quoted_written _ _) hopening hclosing (by decide) nofun

/-- A line feed that cuts no string short is, to the byte before it, like a space. -/
theorem next_of_newline (hs : s.Quoted) (h : ∀ q, s.next before c (some '\n') ≠ .string q) :
    s.next before c (some ' ') = s.next before c (some '\n') := by
  cases s with
  | string q =>
    by_cases hback : c = '\\'
    · -- the backslash would leave the string open
      have hopen : (State.string q).next before c (some '\n') = .string q := by
        have hquote : c ≠ q := by
          subst hback
          rcases hs with rfl | rfl <;> decide
        simp [State.next, protects, hback, hback ▸ hquote]
      exact absurd hopen (h q)
    · simp [State.next, hback]
  | code => simp [State.next]
  | opening block => cases block <;> rfl
  | _ => simp [State.next]

/-! ## Values that need no line breaks -/

/-- A string is open. -/
def State.inString : State → Bool
  | .string _ => true
  | _ => false

/-- **The text has no use for its line breaks**: read from a state, none of them ends a comment or a string, and
nothing is open at the end. -/
def fitsOnLine (before : Option Char) (s : State) : Text → Bool
  | [] => s = .code
  | c :: r => s ≠ .lineComment && (c ≠ '\n' || !s.inString) &&
      fitsOnLine (some c) (s.next before c r.head?) r

theorem fitsOnLine_cons {r : Text} (h : fitsOnLine before s (c :: r) = true) :
    s ≠ .lineComment ∧ (c = '\n' → ∀ q, s ≠ .string q) ∧ fitsOnLine (some c) (s.next before c r.head?) r = true := by
  rw [fitsOnLine, Bool.and_eq_true, Bool.and_eq_true, Bool.or_eq_true] at h
  obtain ⟨⟨hcomment, hstring⟩, hrest⟩ := h
  refine ⟨by simpa using hcomment, ?_, hrest⟩
  rintro rfl q rfl
  simp [State.inString] at hstring

end Mask

namespace Style

open Mask

variable {s : State} {before : Option Char} {c x : Char} {out r t : Text}

theorem protects_of_isSpaceOrTab (h : isSpaceOrTab x = true) : protects (some x) = true := by
  simp only [isSpaceOrTab, Bool.or_eq_true, decide_eq_true_eq] at h
  rcases h with rfl | rfl <;> rfl

theorem inert_space : Inert (some ' ') := inert_of_blank rfl

/-- Blanks at the end of what has been written can be taken back. -/
theorem rested_dropWhile (hcomment : (written out (some ' ')).rested ≠ .lineComment) :
    (written (out.dropWhile isSpaceOrTab) (some ' ')).rested = (written out (some ' ')).rested := by
  induction out with
  | nil => rfl
  | cons x out ih =>
    rw [List.dropWhile_cons]
    split
    · next hx =>
      obtain ⟨hblank, hstays⟩ := isBlank_of_isSpaceOrTab hx
      have hsame : written out (some x) = written out (some ' ') :=
        written_congr out (inert_of_blank hblank) inert_space (protects_of_isSpaceOrTab hx)
      obtain ⟨hopening, hclosing⟩ := written_of_inert out inert_space
      have hback : written (x :: out) (some ' ') = (written out (some ' ')).rested := by
        rw [written_cons, hsame]
        exact next_of_idle (quoted_written _ _) hopening hclosing (idle_of_blank hblank) fun hx => absurd hx hstays
      have htwice : ∀ s : State, s.rested.rested = s.rested := by
        intro s
        cases s <;> rfl
      rw [hback, htwice] at hcomment ⊢
      exact ih hcomment
    · rfl

/-- **A line break begins to pend.** -/
theorem pending_of_break (hbreak : c = '\n' ∨ c = '\r')
    (h : fitsOnLine out.head? (written out (some c)) (c :: r) = true) :
    fitsOnLine (some c) (written (out.dropWhile isSpaceOrTab) (some ' ')).rested r = true := by
  obtain ⟨hcomment, hstring, hrest⟩ := fitsOnLine_cons h
  have hblank : isBlank c = true := by rcases hbreak with rfl | rfl <;> rfl
  obtain ⟨hopening, hclosing⟩ := written_of_inert out (inert_of_blank hblank)
  have hnext : (written out (some c)).next out.head? c r.head? = (written out (some c)).rested :=
    next_of_idle (quoted_written _ _) hopening hclosing (idle_of_blank hblank)
      fun hx => ⟨hcomment, hstring hx⟩
  -- a blank would be protected by a backslash, as a carriage return is; a line feed is not in a string
  have hsame : (written out (some ' ')).rested = (written out (some c)).rested := by
    rcases hbreak with rfl | rfl
    · cases out with
      | nil => rfl
      | cons d out =>
        have hnot := hstring rfl
        rw [written_cons] at hnot
        rw [written_cons, written_cons, next_of_newline (quoted_written _ _) hnot]
    · rw [written_congr out inert_space (inert_of_blank hblank) rfl]
  rw [rested_dropWhile, hsame, ← hnext]
  · exact hrest
  · rw [hsame]
    cases hs : written out (some c) with
    | lineComment => exact absurd hs hcomment
    | _ => simp [State.rested]

/-- What is read while a line break is pending. -/
theorem next_of_pending (before : Option Char) (hx : Idle x) (hcomment : (written out (some ' ')).rested ≠ .lineComment)
    (hstring : x = '\n' → ∀ q, (written out (some ' ')).rested ≠ .string q) (ahead : Option Char) :
    (written out (some ' ')).rested.next before x ahead = (written out (some ' ')).rested := by
  have hquoted : (written out (some ' ')).rested.Quoted := by
    have hq := quoted_written out (some ' ')
    cases hs : written out (some ' ') <;> rw [hs] at hq <;> exact hq
  obtain ⟨hopening, hclosing⟩ := written_of_inert out inert_space
  rw [next_of_idle hquoted ?_ ?_ hx fun hline => ⟨hcomment, hstring hline⟩, rested_rested]
  · intro b
    cases hs : written out (some ' ') <;> simp_all [State.rested]
  · cases hs : written out (some ' ') <;> simp_all [State.rested]

/-- A pending line break becomes a blank before the next byte. -/
theorem written_blank (hc : before ≠ some ':')
    (ahead : Option Char) : written (c :: ' ' :: out) ahead =
      (written out (some ' ')).rested.next before c ahead := by
  obtain ⟨hopening, hclosing⟩ := written_of_inert out inert_space
  have hblank : written (' ' :: out) (some c) = (written out (some ' ')).rested := by
    rw [written_cons]
    exact next_of_idle (quoted_written _ _) hopening hclosing (by decide) nofun
  rw [written_cons, hblank]
  exact next_congr_before fun _ => ⟨nofun, fun h => absurd h hc⟩

/-- At a parenthesis it becomes nothing. -/
theorem written_tight (hcomment : (written out (some ' ')).rested ≠ .lineComment) (hc : before ≠ some ':')
    (h : out = [] ∨ out.head? = some '(' ∨ c = ')') (ahead : Option Char) :
    written (c :: out) ahead = (written out (some ' ')).rested.next before c ahead := by
  rw [written_cons]
  rcases h with rfl | hopen | rfl
  · exact next_congr_before fun _ => ⟨nofun, fun h => absurd h hc⟩
  · obtain ⟨o, rfl⟩ := List.head?_eq_some_iff.1 hopen
    rw [written_parenthesis, written_parenthesis, rested_rested]
    exact next_congr_before fun _ => ⟨nofun, fun h => absurd h hc⟩
  · have hinert : Inert (some ')') := ⟨by decide, by decide⟩
    have hsame : written out (some ')') = written out (some ' ') := written_congr out hinert inert_space rfl
    obtain ⟨hopening, hclosing⟩ := written_of_inert out inert_space
    have hpending := next_of_pending before (x := ')') (by decide) hcomment
      (fun h => absurd h (by decide)) ahead
    rw [hsame, hpending]
    exact next_of_idle (quoted_written _ _) hopening hclosing (by decide) fun h => absurd h (by decide)

/-- **The state of what is written follows the state of the value**, both while no line break is pending and
while one is. -/
theorem after_joinLineBreaksFrom :
    (fitsOnLine out.head? (written out t.head?) t = true →
      State.after none .code none (joinLineBreaksFrom out false t) = .code) ∧
    (∀ before, before ≠ some ':' → fitsOnLine before (written out (some ' ')).rested t = true →
      State.after none .code none (joinLineBreaksFrom out true t) = .code) := by
  -- the two parts hand over to each other: a line break makes the writer wait, the next byte ends the wait
  induction t generalizing out with
  | nil =>
    constructor
    · intro h
      exact of_decide_eq_true h
    · intro _ _ h
      have hcode : written out (some ' ') = .code := by
        rw [fitsOnLine, decide_eq_true_eq] at h
        cases hs : written out (some ' ') <;> simp_all [State.rested]
      exact after_code_of_inert hcode inert_none
  | cons c r ih =>
    constructor
    · intro h
      rw [joinLineBreaksFrom]
      split
      · next hbreak =>
        have hbreak' : c = '\n' ∨ c = '\r' := by simpa using hbreak
        apply ih.2 (some c) _ (pending_of_break hbreak' h)
        rcases hbreak' with rfl | rfl <;> decide
      · simp only [Bool.false_and, Bool.false_eq_true, if_false]
        apply ih.1
        rw [written_cons]
        exact (fitsOnLine_cons h).2.2
    · intro before hc h
      obtain ⟨hcomment, hstring, hrest⟩ := fitsOnLine_cons h
      rw [joinLineBreaksFrom]
      split
      · next hbreak =>
        have hbreak' : c = '\n' ∨ c = '\r' := by simpa using hbreak
        have hblank : isBlank c = true := by rcases hbreak' with rfl | rfl <;> rfl
        rw [next_of_pending _ (idle_of_blank hblank) hcomment hstring] at hrest
        apply ih.2 (some c)
        · rcases hbreak' with rfl | rfl <;> decide
        · rw [rested_dropWhile hcomment]
          exact hrest
      · split
        · next hblank =>
          have hspace : isSpaceOrTab c = true := by simpa using hblank
          obtain ⟨hblank, hstays⟩ := isBlank_of_isSpaceOrTab hspace
          rw [next_of_pending _ (idle_of_blank hblank) hcomment hstring] at hrest
          apply ih.2 (some c) _ hrest
          rintro ⟨⟩
          cases hblank
        · split
          · apply ih.1
            rw [written_blank hc]
            exact hrest
          · next htight =>
            apply ih.1
            rw [written_tight hcomment hc _]
            · exact hrest
            · simp only [Bool.true_and, Bool.and_eq_true, Bool.not_eq_true', decide_eq_true_eq] at htight
              by_cases hnil : out = []
              · exact .inl hnil
              · by_cases hopen : out.head? = some '('
                · exact .inr (.inl hopen)
                · refine .inr (.inr (Classical.byContradiction fun hclose => htight ?_))
                  exact ⟨⟨by simpa using hnil, hopen⟩, hclose⟩

/-- **A value that has no use for its line breaks leaves nothing open on one line.** -/
theorem after_joinLineBreaks (h : fitsOnLine none .code t = true) :
    State.after none .code none (joinLineBreaks t) = .code :=
  after_joinLineBreaksFrom.1 h

/-- It is one line. -/
theorem not_mem_joinLineBreaksFrom {broken : Bool} (hout : '\n' ∉ out) :
    '\n' ∉ joinLineBreaksFrom out broken t := by
  induction t generalizing out broken with
  | nil => simpa [joinLineBreaksFrom] using hout
  | cons c r ih =>
    rw [joinLineBreaksFrom]
    split
    · exact ih fun h => hout ((List.dropWhile_sublist _).mem h)
    · next hbreak =>
      have hc : '\n' ≠ c := by
        rintro rfl
        simp at hbreak
      split
      · exact ih hout
      · split
        · exact ih (by simp [hc, hout])
        · exact ih (by simp [hc, hout])

theorem not_mem_joinLineBreaks (t : Text) : '\n' ∉ joinLineBreaks t := not_mem_joinLineBreaksFrom (by simp)

end Style

end Flatsheet
