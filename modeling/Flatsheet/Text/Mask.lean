import Flatsheet.Text.Basic

/-!
# `Flatsheet.Text.Mask` — blanking comments and strings

A mask is a text of the same length in which the bytes that are not code are replaced by spaces; line
feeds always stay, so offsets and line numbers of the mask are those of the text. Every scanner of the
library reads a mask and cuts its results out of the text.

The mask is computed by one automaton, `State`, that reads a byte at a time and looks one byte ahead and
one byte back:

* `/*` opens a block comment, closed by the next `*/`;
* `//` opens a comment to the end of the line, unless the byte before it is a colon, as in the address
  `http://host`;
* `"` or `'` opens a string, closed by the same quote or, unfinished, by the end of the line; inside a
  string a backslash protects the next byte, unless that is a line feed or a NUL byte.

## Contents

* `Mask.State`, `Mask.State.next`: the automaton
* `Mask.State.after`: the state after a piece of text
* `Mask.run`, `Text.codeMask`, `Text.commentMask`: the two masks
-/

namespace Flatsheet

namespace Mask

/-- What a mask blanks. -/
inductive Mode
  /-- Comments only. -/
  | comments
  /-- Comments and the bytes between the quotes of a string. -/
  | commentsAndStrings
deriving DecidableEq, Repr

/-- The state in which a byte is read. -/
inductive State
  /-- Outside comments and strings. -/
  | code
  /-- The second byte of a mark that opens a comment, of the block kind or of the line kind. -/
  | opening (block : Bool)
  /-- Inside a comment that ends with its line. -/
  | lineComment
  /-- Inside a comment that ends with its closing mark. -/
  | blockComment
  /-- The second byte of the mark that closes a block comment. -/
  | closing
  /-- Inside a string opened by the given quote. -/
  | string (quote : Char)
  /-- The byte that a backslash protects inside a string. -/
  | escaped (quote : Char)
deriving DecidableEq, Repr

/-- A backslash protects the byte ahead of it, unless the text ends there or that byte is NUL or a line
feed. -/
def protects (ahead : Option Char) : Bool :=
  match ahead with
  | none => false
  | some c => c ≠ '\x00' && c ≠ '\n'

/-- The state after reading `c`, between the bytes `before` and `ahead`. -/
def State.next (before : Option Char) (s : State) (c : Char) (ahead : Option Char) : State :=
  match s with
  | .code =>
    if c = '/' && ahead = some '*' then .opening true
    else if c = '/' && ahead = some '/' && before ≠ some ':' then .opening false
    else if c = '"' || c = '\'' then .string c
    else .code
  | .opening true => .blockComment
  | .opening false => .lineComment
  | .lineComment => if c = '\n' then .code else .lineComment
  | .blockComment => if c = '*' && ahead = some '/' then .closing else .blockComment
  | .closing => .code
  | .string q =>
    if c = '\\' && protects ahead then .escaped q
    else if c = q || c = '\n' then .code
    else .string q
  | .escaped q => .string q

/-- Whether the byte `c`, read in state `s` and followed by state `t`, is blanked. A line feed never
is. -/
def State.blanks (mode : Mode) (s : State) (c : Char) (t : State) : Bool :=
  match s with
  | .code => (t matches .opening _)
  | .string _ => mode = .commentsAndStrings && t ≠ .code && c ≠ '\n'
  | .escaped _ => mode = .commentsAndStrings && c ≠ '\n'
  | _ => c ≠ '\n'

/-- The state after reading a piece of text that the byte `ahead` follows. -/
def State.after (before : Option Char) (s : State) (ahead : Option Char) : Text → State
  | [] => s
  | c :: r => State.after (some c) (s.next before c (r.head?.or ahead)) ahead r

/-- The masked text, read from state `s` after the byte `before`. -/
def run (mode : Mode) (before : Option Char) (s : State) : Text → Text
  | [] => []
  | c :: r =>
    let t := s.next before c r.head?
    (if s.blanks mode c t then ' ' else c) :: run mode (some c) t r

end Mask

namespace Text

/-- The mask of a text. -/
def mask (mode : Mask.Mode) (t : Text) : Text := Mask.run mode none .code t

/-- The text with its comments blanked. -/
def commentMask (t : Text) : Text := mask .comments t

/-- The text with its comments and the insides of its strings blanked. -/
def codeMask (t : Text) : Text := mask .commentsAndStrings t

@[simp] theorem length_run (mode : Mask.Mode) (before : Option Char) (s : Mask.State) (t : Text) :
    (Mask.run mode before s t).length = t.length := by
  induction t generalizing before s with
  | nil => rfl
  | cons c r ih => simp [Mask.run, ih]

/-- A mask has the length of its text. -/
@[simp] theorem length_mask (mode : Mask.Mode) (t : Text) : (mask mode t).length = t.length :=
  length_run mode none .code t

@[simp] theorem length_codeMask (t : Text) : (codeMask t).length = t.length := length_mask _ t

@[simp] theorem length_commentMask (t : Text) : (commentMask t).length = t.length := length_mask _ t

end Text

end Flatsheet
