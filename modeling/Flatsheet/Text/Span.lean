import Flatsheet.Text.Delimiter

/-!
# `Flatsheet.Text.Span` — removing and replacing stretches of a text

## Contents

* `Text.eraseStatement`: cut one statement out, with the line it leaves blank
* `Text.eraseStatements`: cut several statements out, last first
* `Text.replaceSpan`, `Text.replaceSpans`: put other text in place of stretches, last first
-/

namespace Flatsheet.Text

/-- The bytes after the last line feed. -/
def lastLine (t : Text) : Text := (t.reverse.takeWhile (· ≠ '\n')).reverse

/-- The bytes before the first line feed. -/
def firstLine (t : Text) : Text := t.takeWhile (· ≠ '\n')

/-- Cut a statement out. If only blanks are left of the lines it stood on, these lines go with it,
the line feed at their end included; otherwise the spaces and tabs after it go. -/
def eraseStatement (t : Text) (s : Span) : Text :=
  let before := t.take s.start
  let after := t.drop s.stop
  let head := lastLine before
  let tail := firstLine after
  if head.all isBlank && tail.all isBlank then
    before.take (before.length - head.length) ++ after.drop (tail.length + 1)
  else before ++ after.dropWhile isSpaceOrTab

/-- Cut several statements out, the last one first, so that the offsets of the others stay right. -/
def eraseStatements (t : Text) (spans : List Span) : Text :=
  spans.foldr (fun s acc => eraseStatement acc s) t

/-- Put `piece` in place of a stretch. -/
def replaceSpan (t : Text) (s : Span) (piece : Text) : Text :=
  t.take s.start ++ piece ++ t.drop s.stop

/-- Put a piece in place of each stretch, the last one first, so that the offsets of the others stay
right. -/
def replaceSpans (t : Text) (edits : List (Span × Text)) : Text :=
  edits.foldr (fun e acc => replaceSpan acc e.1 e.2) t

end Flatsheet.Text
