import Flatsheet.Text.Mask

/-!
# `Flatsheet.Text.Delimiter` — brackets, interpolation and argument lists

## Contents

* `Span`: a stretch of a text by its two offsets
* `Text.matching?`: the offset of the delimiter that closes the one at an offset
* `Text.interpolations`: the stretches `#{…}` of a text
* `Text.splitTopLevel`: the pieces of an argument list
-/

namespace Flatsheet

/-- A stretch of a text: the offset of its first byte and the offset after its last. -/
structure Span where
  start : Nat
  stop : Nat
deriving DecidableEq, Repr

namespace Span

/-- The offset lies inside the span. -/
def covers (s : Span) (pos : Nat) : Bool := s.start ≤ pos && pos < s.stop

theorem covers_iff {s : Span} {pos : Nat} : s.covers pos = true ↔ s.start ≤ pos ∧ pos < s.stop := by
  rw [covers, Bool.and_eq_true, decide_eq_true_eq, decide_eq_true_eq]

theorem covers_eq_false_iff {s : Span} {pos : Nat} : s.covers pos = false ↔ pos < s.start ∨ s.stop ≤ pos := by
  rw [← Bool.not_eq_true, covers_iff]
  omega

/-- The span moved to the right. -/
def shift (s : Span) (n : Nat) : Span := ⟨s.start + n, s.stop + n⟩

end Span

namespace Text

/-! ## Matching delimiters -/

/-- The number of bytes before the delimiter at which the nesting depth, which is `depth` at first,
returns to zero. -/
def closingOffset? (opener closer : Char) (depth : Int) : Text → Option Nat
  | [] => none
  | c :: r =>
    if c = opener then (closingOffset? opener closer (depth + 1) r).map (· + 1)
    else if c = closer then
      if depth - 1 = 0 then some 0
      else (closingOffset? opener closer (depth - 1) r).map (· + 1)
    else (closingOffset? opener closer depth r).map (· + 1)

/-- The offset of the delimiter that closes the one at `start`, counting only delimiters that are code;
nothing if there is no `opener` at `start` or it is never closed. -/
def matching? (t : Text) (start : Nat) (opener closer : Char) : Option Nat :=
  if t[start]? = some opener then
    (closingOffset? opener closer 0 ((codeMask t).drop start)).map (· + start)
  else none

/-! ## Interpolation -/

/-- The number of bytes after which the brace that makes the nesting depth zero has been read. -/
def braceEnd? (depth : Nat) : Text → Option Nat
  | [] => none
  | c :: r =>
    if c = '{' then (braceEnd? (depth + 1) r).map (· + 1)
    else if c = '}' then
      if depth ≤ 1 then some 1 else (braceEnd? (depth - 1) r).map (· + 1)
    else (braceEnd? depth r).map (· + 1)

/-- The stretches `#{…}` of a text whose first byte has offset `pos`. Braces are counted as they stand,
and a stretch that is never closed takes the rest of the text. -/
def interpolationsFrom (pos : Nat) (t : Text) : List Span :=
  match t with
  | [] => []
  | c :: r =>
    if c = '#' && r.head? = some '{' then
      match braceEnd? 0 r with
      | none => [⟨pos, pos + 1 + r.length⟩]
      | some n => ⟨pos, pos + 1 + n⟩ :: interpolationsFrom (pos + 1 + n) (r.drop n)
    else interpolationsFrom (pos + 1) r
termination_by t.length

/-- The stretches `#{…}` of a text, in order. -/
def interpolations (t : Text) : List Span := interpolationsFrom 0 t

/-! ## Argument lists -/

/-- The state of the argument scanner: how deep in brackets it is, and the quote it is inside. -/
structure SplitState where
  depth : Nat
  quote : Option Char
  /-- The next byte is protected by a backslash inside a quoted piece. -/
  escaped : Bool
deriving DecidableEq, Repr

/-- At the beginning of a piece the scanner is outside all brackets and quotes. -/
def SplitState.fresh : SplitState := ⟨0, none, false⟩

/-- The byte separates two pieces here. -/
def SplitState.cutsAt (s : SplitState) (separator c : Char) : Bool :=
  !s.escaped && s.quote.isNone && s.depth = 0 && c = separator
    && c ≠ '"' && c ≠ '\'' && c ≠ '(' && c ≠ '['

/-- The state after a byte. A closing bracket without an open one is an ordinary byte. -/
def SplitState.next (s : SplitState) (c : Char) : SplitState :=
  if s.escaped then { s with escaped := false }
  else match s.quote with
    | some q =>
      if c = '\\' then { s with escaped := true }
      else if c = q then { s with quote := none }
      else s
    | none =>
      if c = '"' || c = '\'' then { s with quote := some c }
      else if c = '(' || c = '[' then { s with depth := s.depth + 1 }
      else if c = ')' || c = ']' then { s with depth := s.depth - 1 }
      else s

/-- The pieces of a text before and between the separators that stand outside brackets and quotes. -/
def pieces (separator : Char) (s : SplitState) : Text → List Text
  | [] => [[]]
  | c :: r =>
    if s.cutsAt separator c then [] :: pieces separator s r
    else match pieces separator (s.next c) r with
      | [] => [[c]]
      | p :: ps => (c :: p) :: ps

/-- The trimmed pieces of an argument list. A blank list has none. -/
def splitTopLevel (separator : Char) (t : Text) : List Text :=
  if (trim t).isEmpty then [] else (pieces separator .fresh t).map trim

end Text

end Flatsheet
