import Flatsheet.Text.Basic

/-!
# `Flatsheet.Log.Pattern` — patterns over bytes

A pattern describes stretches of a text. Where a pattern can match in several ways, the ways are ordered:
the left alternative before the right one, an optional part present before absent, a repetition longer
before shorter. A search takes the first place at which there is a match, and there the first way. Letters
match without regard to case.

## Contents

* `Pattern`, `Match`
* `Pattern.outcomes`: all matches at the start of a text, in order
* `Pattern.search?`
-/

namespace Flatsheet.Log

/-- A pattern over bytes. -/
inductive Pattern
  /-- The empty stretch. -/
  | empty
  /-- One byte of a class. -/
  | byte (p : Char → Bool)
  /-- One after the other. -/
  | seq (a b : Pattern)
  /-- The one or else the other. -/
  | either (a b : Pattern)
  /-- The pattern or else nothing. -/
  | optional (a : Pattern)
  /-- As many bytes of a class as possible, but at least so many. -/
  | many (least : Nat) (p : Char → Bool)
  /-- What the pattern matches is remembered under a number. -/
  | group (number : Nat) (a : Pattern)

/-- A match at the start of a text. -/
structure Match where
  /-- The text after the match. -/
  rest : Text
  /-- What the groups matched. -/
  groups : List (Nat × Text) := []

namespace Pattern

/-- A word, in small letters. -/
def word (t : String) : Pattern :=
  t.toList.foldr (fun c r => .seq (.byte fun b => b.toLower = c) r) .empty

/-- Patterns one after the other. -/
def all (ps : List Pattern) : Pattern := ps.foldr .seq .empty

/-- All ways in which a pattern matches the start of a text, in order of preference. -/
def outcomes : Pattern → Text → List Match
  | empty, t => [{ rest := t }]
  | byte p, t => match t with
    | [] => []
    | c :: r => if p c then [{ rest := r }] else []
  | seq a b, t => (a.outcomes t).flatMap fun m =>
    (b.outcomes m.rest).map fun n => ⟨n.rest, m.groups ++ n.groups⟩
  | either a b, t => a.outcomes t ++ b.outcomes t
  | optional a, t => a.outcomes t ++ [{ rest := t }]
  | many least p, t =>
    ((List.range (Text.spanLength p t + 1)).reverse.filter (least ≤ ·)).map fun n =>
      { rest := t.drop n }
  | group k a, t => (a.outcomes t).map fun m =>
    ⟨m.rest, (k, t.take (t.length - m.rest.length)) :: m.groups⟩

/-- The groups of the first match in a text, if there is one. -/
def search? (p : Pattern) (t : Text) : Option (List (Nat × Text)) :=
  match p.outcomes t with
  | m :: _ => some m.groups
  | [] => match t with
    | [] => none
    | _ :: r => p.search? r

end Pattern

end Flatsheet.Log
