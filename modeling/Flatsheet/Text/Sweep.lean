import Flatsheet.Text.Delimiter

/-!
# `Flatsheet.Text.Sweep` — finding things in a text from left to right

All scanners that look for statements or calls work alike. They go through a mask from left to right. At
each place they look ahead: there is nothing here, or something is found that takes a number of bytes,
after which the search goes on, or the rest of the text can hold nothing more. `sweep` is that walk, and
a scanner is the function that looks.

## Contents

* `Cursor`: a place in a text, with what has been read and what is to come
* `Cursor.skip`, `Cursor.group?`: moving on over bytes of a class, and over a bracketed group
* `Sighting`, `sweep`
-/

namespace Flatsheet

/-- A place in a text. -/
structure Cursor where
  /-- The bytes before the place, the nearest first. -/
  seen : Text
  /-- The offset of the place. -/
  pos : Nat
  /-- The bytes from the place on. -/
  rest : Text
deriving DecidableEq, Repr

namespace Cursor

/-- The place `n` bytes further on, or the end of the text. -/
def advance (c : Cursor) (n : Nat) : Cursor :=
  let read := c.rest.take n
  ⟨read.reverse ++ c.seen, c.pos + read.length, c.rest.drop n⟩

/-- The first place from here on whose byte is not of the class. -/
def skip (p : Char → Bool) (c : Cursor) : Cursor := c.advance (Text.spanLength p c.rest)

/-- The byte at the place. -/
def byte? (c : Cursor) : Option Char := c.rest.head?

/-- The byte before the place. -/
def byteBefore? (c : Cursor) : Option Char := c.seen.head?

/-- The place after the bracketed group that starts here, if it is closed. The text is a mask. -/
def group? (opener closer : Char) (c : Cursor) : Option Cursor :=
  (Text.closingOffset? opener closer 0 c.rest).map fun n => c.advance (n + 1)

/-- The text before the place ends with the given piece. -/
def follows (c : Cursor) (piece : Text) : Bool := Text.startsWith c.seen piece.reverse

end Cursor

/-- What a look at one place of a text finds. -/
inductive Sighting (α : Type)
  /-- Nothing starts here. -/
  | nothing
  /-- Nothing starts here nor anywhere further on. -/
  | over
  /-- Something starts here, and the search goes on `length` bytes further, but at least one. -/
  | found (item : α) (length : Nat)

/-- The things found from a place on, where the next `wait` bytes belong to the last thing found. -/
def sweepFrom {α : Type} (look : Cursor → Sighting α) (seen : Text) (pos : Nat) (wait : Nat) :
    Text → List α
  | [] => []
  | c :: r =>
    if 0 < wait then sweepFrom look (c :: seen) (pos + 1) (wait - 1) r
    else match look ⟨seen, pos, c :: r⟩ with
      | .nothing => sweepFrom look (c :: seen) (pos + 1) 0 r
      | .over => []
      | .found a n => a :: sweepFrom look (c :: seen) (pos + 1) (n - 1) r

/-- The things found in a text, in order. -/
def sweep {α : Type} (look : Cursor → Sighting α) (t : Text) : List α := sweepFrom look [] 0 0 t

end Flatsheet
