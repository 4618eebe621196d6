import Flatsheet.Text.Basic

/-!
# `Flatsheet.Shell.Word` — words and commands of shell scripts

A word is a list of pieces. Each piece knows whether it is quoted, since quoting decides later whether a
value is split into several words and whether a star stands for itself. Words contain commands, whose
output they stand for, and commands contain words, so both are defined together.

## Contents

* `Change`: what braces make of the value of a parameter
* `Piece`, `Redirection`, `Command`
* `Word` with `plain?`, `assignment?`
-/

namespace Flatsheet.Shell

open Text

/-! ## Words and commands -/

/-- What braces around the name of a parameter make of its value. -/
inductive Change
  /-- The value itself. -/
  | asIs
  /-- The number of its bytes. -/
  | size
  /-- A word instead of a missing value. -/
  | fallback
  /-- A word instead of an existing value. -/
  | alternative
  /-- A missing value is a failure. -/
  | demand
  /-- A missing value is assigned. -/
  | assign
  /-- Without what matches a pattern at the front. -/
  | cutFront (longest : Bool)
  /-- Without what matches a pattern at the end. -/
  | cutBack (longest : Bool)
  /-- None of these. -/
  | unknown
deriving DecidableEq, Repr

/-- How a redirection opens a file. -/
inductive OpenMode
  | read
  | write
  /-- Writes even over a file that exists, whatever the options of the shell are. -/
  | overwrite
  | append
  | readWrite
deriving DecidableEq, Repr

mutual

/-- A piece of a word. -/
inductive Piece
  /-- The border of quotes, because of which an empty word is a word. -/
  | mark
  | byte (c : Char) (quoted : Bool)
  /-- The value of a parameter. With `colon` an empty value counts as missing. -/
  | parameter (name : Text) (change : Change) (colon : Bool) (word : List Piece) (quoted : Bool)
  /-- The value of a calculation. -/
  | calculation (source : List Piece) (quoted : Bool)
  /-- What a command writes. -/
  | output (script : Command) (quoted : Bool)

/-- A channel gets another source or destination. -/
inductive Redirection
  | file (channel : Nat) (mode : OpenMode) (path : List Piece)
  /-- The channel becomes the same as another one, or is closed if the word is a minus sign. -/
  | duplicate (channel : Nat) (source : List Piece)
  /-- The channel reads the document of a number, which stands somewhere after the command. -/
  | document (channel : Nat) (number : Nat)

/-- A command. -/
inductive Command
  /-- A program, a function or a builtin with its arguments, after assignments. -/
  | simple (line : Nat) (assignments words : List (List Piece)) (redirections : List Redirection)
  | redirected (line : Nat) (body : Command) (redirections : List Redirection)
  | sequence (commands : List Command)
  /-- The second one runs if the first one succeeds. -/
  | both (a b : Command)
  /-- The second one runs if the first one fails. -/
  | either (a b : Command)
  | negated (a : Command)
  /-- Each one reads what the one before it writes. -/
  | pipe (commands : List Command)
  | choice (condition yes : Command) (no : Option Command)
  /-- The body runs as long as the condition succeeds, or, with `inverted`, as long as it fails. -/
  | loop (inverted : Bool) (condition body : Command)
  /-- The body runs for each word. -/
  | each (line : Nat) (name : Text) (words : List (List Piece)) (body : Command)
  /-- The first body runs of which a pattern matches the subject. -/
  | branches (line : Nat) (subject : List Piece) (branches : List (List (List Piece) × Option Command))
  /-- What the command does to variables is lost. -/
  | subshell (line : Nat) (body : Command) (redirections : List Redirection)
  /-- The command runs while the script goes on. -/
  | background (line : Nat) (body : Command) (redirections : List Redirection)
  /-- A function gets a body. -/
  | define (name : Text) (body : Command)

end

instance : Inhabited Command := ⟨.sequence []⟩

/-- The pieces of a word. -/
abbrev Word := List Piece

/-! ## Names and words without quotes -/

/-- Letters, digits and `_` make up the name of a variable. -/
def isNameByte (c : Char) : Bool := c.isAlphanum || c = '_'

/-- The name of a variable starts with a letter or `_`. -/
def isNameStart (c : Char) : Bool := c.isAlpha || c = '_'

/-- The text is the name of a variable. -/
def isName (t : Text) : Bool := t.head?.any isNameStart && t.all isNameByte

/-- The parameters with names of one byte. -/
def isSpecial (c : Char) : Bool :=
  c = '@' || c = '*' || c = '#' || c = '?' || c = '$' || c = '!' || c = '-' || c.isDigit

/-- The unquoted byte that a piece is. -/
def Piece.bare? : Piece → Option Char
  | .byte c false => some c
  | _ => none

/-- The text of a word in which nothing is quoted and everything stands for itself. -/
def plain? (w : Word) : Option Text := w.mapM Piece.bare?

/-- The name and the value of a word that is an assignment. -/
def assignment? (w : Word) : Option (Text × Word) :=
  let name := (w.map Piece.bare?).takeWhile fun c => c.any isNameByte
  let t := name.filterMap id
  match w.drop t.length with
  | .byte '=' false :: value => if isName t then some (t, value) else none
  | _ => none

/-- The text of a word that stands for itself, whether quoted or not. -/
def literal (w : Word) : Text := w.filterMap fun
  | .byte c _ => some c
  | _ => none

end Flatsheet.Shell
