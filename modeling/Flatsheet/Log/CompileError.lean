import Flatsheet.Log.Pattern
import Flatsheet.Text.Numeral

/-!
# `Flatsheet.Log.CompileError` — errors of the watching compiler, read from its log

A line of the log that a pattern claims makes an error. The lines just after it, up to the next claimed
line, can tell where the error is and which name it is about.

## Contents

* `ErrorKind`, `CompileError` with `describe`
* `claim?`, `locate?`, `subject?`: what one line tells
* `CompileError.read`: the error of a claimed line
* `CompileError.parse`: the errors of a log, each once
-/

namespace Flatsheet.Log

open Text

/-! ## Errors -/

/-- The kinds of errors. -/
inductive ErrorKind
  | syntaxError
  | undefinedVariable
  | undefinedMixin
  | invalidCss
deriving DecidableEq, Repr

/-- The word for a kind of error. -/
def ErrorKind.name : ErrorKind → Text
  | syntaxError => "syntax_error".toList
  | undefinedVariable => "undefined_variable".toList
  | undefinedMixin => "undefined_mixin".toList
  | invalidCss => "invalid_css".toList

/-- An error of the compiler. -/
structure CompileError where
  kind : ErrorKind
  /-- The line of the log, trimmed. -/
  raw : Text := []
  /-- The variable, the mixin, the expected token or the rejected piece; empty if unknown. -/
  name : Text := []
  file : Option Text := none
  line : Option Nat := none
  /-- What the groups of the claiming pattern matched. -/
  groups : List Text := []
deriving DecidableEq, Repr

namespace CompileError

/-- An error in a few words. -/
def describe (e : CompileError) : Text :=
  e.kind.name ++ (if e.name.isEmpty then [] else " '".toList ++ e.name ++ "'".toList)
    ++ match e.file, e.line with
      | some f, some n => " in ".toList ++ f ++ ":".toList ++ Text.ofNat n
      | some f, none => " in ".toList ++ f
      | none, some n => " on line ".toList ++ Text.ofNat n
      | none, none => []

/-- Two errors are about the same thing. -/
def same (a b : CompileError) : Bool :=
  a.kind = b.kind && a.name = b.name && a.file = b.file && a.line = b.line

end CompileError

/-! ## What one line tells -/

/-- The bytes of a path. -/
def isPathByte (c : Char) : Bool := c.isAlphanum || c = '_' || c = '.' || c = '/' || c = '-'

/-- A quote of either kind. -/
def isQuote (c : Char) : Bool := c = '\'' || c = '"'

/-- A name, remembered as the first group. -/
def namePattern : Pattern := .group 1 (.many 1 isIdent)

/-- An optional quote. -/
def quotePattern : Pattern := .optional (.byte isQuote)

/-- The patterns that claim a line, in order, with the number of their groups. -/
def claimPatterns : List (ErrorKind × Nat × Pattern) :=
  [(.undefinedMixin, 1, .all [.either (.word "undefined mixin") (.word "no mixin named"),
      .optional (.all [.many 0 isBlank, quotePattern, namePattern])]),
    (.undefinedVariable, 1, .all [.word "undefined variable",
      .optional (.all [.many 1 fun c => isBlank c || c = ':', quotePattern, .word "$",
        namePattern])]),
    (.syntaxError, 1, .all [.word "expected ", .byte isQuote,
      .group 1 (.many 1 fun c => !isQuote c), .byte isQuote]),
    (.invalidCss, 1, .all [.word "invalid css after ", .byte isQuote,
      .group 1 (.many 0 fun c => !isQuote c), .byte isQuote]),
    (.invalidCss, 0, .all [.either (.word "unbalanced") (.word "mismatched"), .word " paren"]),
    (.invalidCss, 0, .all [.either (.word "isn't") (.word "is not"), .word " a valid css value"]),
    (.syntaxError, 0, .either (.word "syntax error") (.either (.word "unclosed block")
      (.either (.word "unterminated") (.word "unmatched"))))]

/-- What a pattern finds in a line that it claims. -/
structure Claim where
  kind : ErrorKind
  groups : List Text
deriving DecidableEq, Repr

/-- The claim of the first pattern that matches a line. -/
def claim? (line : Text) : Option Claim :=
  claimPatterns.findSome? fun (kind, count, p) =>
    (p.search? line).map fun found =>
      ⟨kind, (List.range count).map fun i => (found.lookup (i + 1)).getD []⟩

/-- A path of a style sheet, remembered under a number. -/
def sheetPattern (number : Nat) : Pattern :=
  .group number (.all [.many 1 isPathByte, .word ".s", .byte fun c => c.toLower = 'a' || c.toLower = 'c',
    .word "ss"])

/-- Decimal digits, remembered under a number. -/
def digitsPattern (number : Nat) : Pattern := .group number (.many 1 Char.isDigit)

/-- The patterns of a place, in order. The first group is the file, the second one the line. -/
def locationPatterns : List Pattern :=
  [.all [sheetPattern 1, .many 1 isBlank, digitsPattern 2, .word ":", .byte Char.isDigit],
    .all [.word "on line ", digitsPattern 2,
      .optional (.all [.word ":", .many 1 Char.isDigit]), .word " of ",
      .group 1 (.many 1 isPathByte)],
    .all [sheetPattern 1, .word ":", digitsPattern 2]]

/-- The part of a path after its last slash of either kind. -/
def lastPart (path : Text) : Text :=
  (path.reverse.takeWhile fun c => c ≠ '/' && c ≠ '\\').reverse

/-- The file and the line that a line of the log names. -/
def locate? (line : Text) : Option (Text × Nat) :=
  (locationPatterns.findSome? (·.search? line)).map fun found =>
    (lastPart ((found.lookup 1).getD []),
      digitsValue ((found.lookup 2).getD []))

/-- A reference to a variable. -/
def variablePattern : Pattern := .all [.word "$", namePattern]

/-- The name after the first include of a line. -/
def includedName? (line : Text) : Option Text :=
  (find? "@include".toList line).bind fun n =>
    let name := (((line.drop (n + 8)).dropWhile isSpaceOrTab).takeWhile isIdent)
    if name.isEmpty then none else some name

/-- The name that an error of a kind is about, as told by a line after it. -/
def subject? (kind : ErrorKind) (line : Text) : Option Text :=
  match kind with
  | .undefinedVariable => (variablePattern.search? line).bind (·.lookup 1)
  | .undefinedMixin => includedName? line
  | _ => none

/-! ## The errors of a log -/

/-- Why a log cannot be read. -/
inductive LogFault
  /-- A line number does not fit into 64 bits. -/
  | lineNumberOverflow
deriving DecidableEq, Repr

/-- The text of a fault: the name of the conversion that failed. -/
def LogFault.message : LogFault → Text
  | lineNumberOverflow => "stoul".toList

namespace CompileError

/-- How many lines after a claimed line are looked at. -/
def lookahead : Nat := 5

/-- The lines after a claimed line that can tell more about its error. -/
def window (rest : List Text) : List Text :=
  (rest.take lookahead).takeWhile fun l => (claim? l).isNone

/-- The largest line number that counts as one: what 64 bits can hold. -/
def largestLine : Nat := 18446744073709551615

/-- The error of a claimed line, given the lines after it that can tell more. -/
def read (c : Claim) (line : Text) (more : List Text) : Except LogFault CompileError :=
  let place := (line :: more).findSome? locate?
  let own := c.groups.headD []
  let name := if own.isEmpty then (more.findSome? (subject? c.kind)).getD [] else own
  if place.any fun p => largestLine < p.2 then .error .lineNumberOverflow
  else .ok ⟨c.kind, trim line, name, place.map (·.1), place.map (·.2), c.groups⟩

/-- The errors of the claimed lines of a log, in order. -/
def readAll : List Text → Except LogFault (List CompileError)
  | [] => .ok []
  | l :: rest =>
    match claim? l with
    | none => readAll rest
    | some c => do
      let e ← read c l (window rest)
      return e :: (← readAll rest)

/-- The first of each group of errors about the same thing. -/
def distinct (es : List CompileError) : List CompileError :=
  es.foldl (fun kept e => if kept.any (·.same e) then kept else kept ++ [e]) []

/-- The errors of a log, in order and each once. -/
def parse (log : List Text) : Except LogFault (List CompileError) := (readAll log).map distinct

end CompileError

end Flatsheet.Log
