/-!
# `Flatsheet.Text.Basic` — texts as byte sequences

A style sheet, a log or a file name is a sequence of bytes. It is held as a list of characters, one
character per byte: the character with number `n` (below 256) stands for the byte `n`. All offsets are
therefore byte offsets, and lemmas about lists are lemmas about texts.

The character classes know ASCII only. A byte from 128 upwards is never a letter, a digit or a blank, so
a multi-byte character of an encoding is opaque to every scanner.

## Contents

* `Text`, the classes `isBlank`, `isIdent`, `isIdentStart`
* `trimLeft`, `trimRight`, `trim`, `lower`, the order `inOrder`
* `splitOn`, `lines` and `unlines`; the last two are inverse to each other from `lines`' side
* searching: `find?`, `has`, `startsWith`, `endsWith`, `slice`, `wordHere`, `wordAt`
-/

namespace Flatsheet

/-- A sequence of bytes, each held as the character of the same number. -/
abbrev Text := List Char

namespace Text

/-! ## Character classes -/

/-- Space, tab, line feed, vertical tab, form feed and carriage return are blank. -/
def isBlank (c : Char) : Bool :=
  c = ' ' || c = '\t' || c = '\n' || c = '\x0b' || c = '\x0c' || c = '\r'

/-- Letters, digits, `_` and `-` make up an identifier. -/
def isIdent (c : Char) : Bool := c.isAlphanum || c = '_' || c = '-'

/-- An identifier starts with a letter, `_` or `-`. -/
def isIdentStart (c : Char) : Bool := c.isAlpha || c = '_' || c = '-'

/-- The decimal digits and the letters `a` to `f` of either case. -/
def isHexDigit (c : Char) : Bool :=
  c.isDigit || ('a' ≤ c && c ≤ 'f') || ('A' ≤ c && c ≤ 'F')

/-- Space and tab, the blanks that stay within a line. -/
def isSpaceOrTab (c : Char) : Bool := c = ' ' || c = '\t'

/-! ## Trimming, case and order -/

/-- The text without its leading blanks. -/
def trimLeft (t : Text) : Text := t.dropWhile isBlank

/-- The text without its trailing blanks. -/
def trimRight (t : Text) : Text := (t.reverse.dropWhile isBlank).reverse

/-- The text without its leading and trailing blanks. -/
def trim (t : Text) : Text := trimRight (trimLeft t)

/-- ASCII capitals become small letters. -/
def lower (t : Text) : Text := t.map Char.toLower

/-- The first text does not come after the second one in byte order. -/
def inOrder : Text → Text → Bool
  | [], _ => true
  | _ :: _, [] => false
  | a :: s, b :: t => a.toNat < b.toNat || (a = b && inOrder s t)

/-! ## Lines -/

/-- The pieces between separators. There is always at least one piece. -/
def splitOn (separator : Char) : Text → List Text
  | [] => [[]]
  | c :: r =>
    if c = separator then [] :: splitOn separator r
    else match splitOn separator r with
      | [] => [[c]]
      | p :: ps => (c :: p) :: ps

/-- The pieces between line feeds. A text that ends in a line feed has a last empty line, so a text
always has at least one line. -/
def lines (t : Text) : List Text := splitOn '\n' t

/-- Lines put together again, with a line feed between each two. -/
def unlines : List Text → Text
  | [] => []
  | [l] => l
  | l :: ls => l ++ '\n' :: unlines ls

/-- The number, from one, of the line that the offset lies on. An offset past the end lies on the last
line. -/
def lineNumberAt (t : Text) (pos : Nat) : Nat := 1 + (t.take pos).count '\n'

theorem splitOn_ne_nil (separator : Char) (t : Text) : splitOn separator t ≠ [] := by
  cases t with
  | nil => simp [splitOn]
  | cons c r =>
    rw [splitOn]
    split
    · simp
    · split <;> simp

theorem unlines_cons (l : Text) {ls : List Text} (h : ls ≠ []) :
    unlines (l :: ls) = l ++ '\n' :: unlines ls := by
  cases ls with
  | nil => exact absurd rfl h
  | cons a as => rfl

/-- Splitting into lines loses nothing. -/
theorem unlines_lines (t : Text) : unlines (lines t) = t := by
  unfold lines
  induction t with
  | nil => rfl
  | cons c r ih =>
    rw [splitOn]
    by_cases hc : c = '\n'
    · rw [if_pos hc, unlines_cons _ (splitOn_ne_nil _ r), ih, hc]; rfl
    · rw [if_neg hc]
      cases hl : splitOn '\n' r with
      | nil => exact absurd hl (splitOn_ne_nil _ r)
      | cons l ls =>
        rw [hl] at ih
        cases ls with
        | nil => simpa [unlines] using ih
        | cons a as => simpa [unlines] using ih

/-! ## Searching -/

/-- The text begins with the given piece. -/
def startsWith (t piece : Text) : Bool := piece.isPrefixOf t

/-- The text ends with the given piece. -/
def endsWith (t piece : Text) : Bool := piece.isSuffixOf t

/-- The offset of the first occurrence of a piece. -/
def find? (piece : Text) : Text → Option Nat
  | [] => if piece = [] then some 0 else none
  | c :: r => if piece.isPrefixOf (c :: r) then some 0 else (find? piece r).map (· + 1)

/-- The offset of the first occurrence of a piece at or after `start`. -/
def findFrom? (piece t : Text) (start : Nat) : Option Nat :=
  (find? piece (t.drop start)).map (· + start)

/-- The piece occurs somewhere in the text. -/
def has (t piece : Text) : Bool := (find? piece t).isSome

/-- The bytes from offset `start` up to offset `stop`. -/
def slice (t : Text) (start stop : Nat) : Text := (t.drop start).take (stop - start)

/-- The number of leading bytes of a class. -/
def spanLength (p : Char → Bool) (t : Text) : Nat := (t.takeWhile p).length

/-- `word` begins the text `rest`, which comes after the byte `before`, and is not part of a longer
identifier. -/
def wordHere (before : Option Char) (word rest : Text) : Bool :=
  startsWith rest word && !before.any isIdent && !(rest.drop word.length).head?.any isIdent

/-- The byte just before an offset. -/
def byteBefore (t : Text) : Nat → Option Char
  | 0 => none
  | n + 1 => t[n]?

/-- `word` stands at the offset and is not part of a longer identifier. -/
def wordAt (t : Text) (pos : Nat) (word : Text) : Bool :=
  decide (pos + word.length ≤ t.length) && wordHere (byteBefore t pos) word (t.drop pos)

/-! ## Comments -/

/-- The line starts, after blanks, with one of the two comment marks. -/
def isCommentLine (line : Text) : Bool :=
  startsWith (trim line) "//".toList || startsWith (trim line) "/*".toList

/-- The text with a space put into each mark that closes a block comment. -/
def breakCommentEnds : Text → Text
  | '*' :: '/' :: r => '*' :: ' ' :: '/' :: breakCommentEnds r
  | c :: r => c :: breakCommentEnds r
  | [] => []

/-! ## Numbers -/

/-- The decimal digits of a number. -/
def ofNat (n : Nat) : Text := (Nat.repr n).toList

/-- The decimal digits of a number, after a minus sign if it is negative. -/
def ofInt (i : Int) : Text := if i < 0 then '-' :: ofNat i.natAbs else ofNat i.natAbs

end Text

end Flatsheet
