import Flatsheet.Repair.Line
import Flatsheet.System.Path

/-!
# `Flatsheet.Repair.Candidate` — files under verification

A candidate is the copy of a target in the directory that the compiler watches. Repairs work on the lines
of candidates.

## Contents

* `Candidate`
* `LineRepair`: what a repair does with a line
* `OpenStatement`, `repairLines`: a repair that goes through the lines of a file
* `Candidate.repair`, `Candidate.replaceLine`, `Candidate.closeBlocks`
-/

namespace Flatsheet.Repair

open Text

/-- A file under verification. -/
structure Candidate where
  /-- The file that is verified. -/
  target : Text
  /-- Its copy in the watched directory. -/
  path : Text
  /-- The output that the compiler is expected to make of the copy. -/
  compiled : Text
  former : Text := []
  lines : List Text
  /-- A repair has changed the lines. -/
  dirty : Bool := false
deriving DecidableEq, Repr

namespace Candidate

/-- The text of the candidate. -/
def content (c : Candidate) : Text := unlines c.lines

/-- The name under which alterations of the file are recorded. -/
def name (c : Candidate) : Text := Path.fileName c.target

/-- The candidate with edits taken into account that led to the given lines. -/
def edited (c : Candidate) (lines : List Text) (edits : List Edit) :
    Candidate × List Alteration :=
  ({ c with lines, dirty := c.dirty || !edits.isEmpty }, edits.map (⟨c.name, ·⟩))

end Candidate

/-! ## Going through the lines -/

/-- What a repair does with a line. -/
inductive LineRepair
  | keep
  | replace (line reason : Text)
  /-- Take the statement out of use that starts at an offset of the line. -/
  | disable (start : Nat) (reason : Text)
deriving DecidableEq, Repr

/-- A statement that is being taken out of use and goes on in the next line. -/
structure OpenStatement where
  /-- The open braces of the statement. -/
  depth : Nat
  /-- The open parentheses of the statement. -/
  parens : Nat
  reason : Text
deriving DecidableEq, Repr

/-- Where a statement ends in a text, and otherwise how many braces and parentheses it leaves open. A
closing brace that the statement did not open ends it without being part of it. -/
def statementEnd (depth parens pos : Nat) : Text → Except (Nat × Nat) Nat
  | [] => .error (depth, parens)
  | c :: r =>
    if c = '(' then statementEnd depth (parens + 1) (pos + 1) r
    else if c = ')' then statementEnd depth (parens - 1) (pos + 1) r
    else if c = '{' then statementEnd (depth + 1) parens (pos + 1) r
    else if c = '}' then
      if depth = 0 then .ok pos
      else if depth = 1 && parens = 0 then .ok (pos + 1)
      else statementEnd (depth - 1) parens (pos + 1) r
    else if c = ';' && depth = 0 && parens = 0 then .ok (pos + 1)
    else statementEnd depth parens (pos + 1) r

/-- The line with a statement taken out of use from `start` on, and the statement if it goes on in the
next line. -/
def OpenStatement.disable (s : OpenStatement) (start : Nat) (line : Text) :
    Text × Option OpenStatement :=
  match statementEnd s.depth s.parens start (line.drop start) with
  | .ok stop => (disableSpan line start stop, none)
  | .error (depth, parens) =>
    (disableSpan line start line.length,
      if depth = 0 && parens = 0 then none else some { s with depth, parens })

/-- One line of a repair: the line after it, the reason for a change, and the statement that goes on. -/
def repairLine (decide : Nat → Text → LineRepair) (pending : Option OpenStatement) (n : Nat)
    (line : Text) : Text × Text × Option OpenStatement :=
  match pending with
  | some s =>
    if isProtected line then (line, s.reason, some s)
    else
      let (line, pending) := s.disable 0 line
      (line, s.reason, pending)
  | none =>
    match decide n line with
    | .keep => (line, [], none)
    | .replace line reason => (line, reason, none)
    | .disable start reason =>
      let (line, pending) := (OpenStatement.mk 0 0 reason).disable start line
      (line, reason, pending)

/-- A repair of the lines from number `n` on, with the edits that it makes. Lines that belong to a
statement being taken out of use are not asked about. -/
def repairLines (decide : Nat → Text → LineRepair) (pending : Option OpenStatement) (n : Nat) :
    List Text → List Text × List Edit
  | [] => ([], [])
  | l :: ls =>
    let (line, reason, pending) := repairLine decide pending n l
    let (rest, edits) := repairLines decide pending (n + 1) ls
    (line :: rest, if line = l then edits else ⟨n, l, line, reason⟩ :: edits)

namespace Candidate

/-- A repair of the lines of a candidate. Lines count from one. -/
def repair (decide : Nat → Text → LineRepair) (c : Candidate) : Candidate × List Alteration :=
  let (lines, edits) := repairLines decide none 1 c.lines
  c.edited lines edits

/-- The line at an index gets another text. -/
def replaceLine (index : Nat) (text reason : Text) (c : Candidate) : Candidate × List Alteration :=
  c.repair fun n _ => if n = index + 1 then .replace text reason else .keep

/-- The opening braces of the candidate's code less the closing ones. -/
def braceBalance (c : Candidate) : Int :=
  let code := codeMask c.content
  (code.count '{' : Int) - code.count '}'

/-- Closes the blocks that are left open, by lines of one brace before the empty line at the end, if
there is one. -/
def closeBlocks (c : Candidate) : Candidate × List Alteration :=
  let missing := c.braceBalance.toNat
  let kept := if c.lines.getLast? = some [] then c.lines.length - 1 else c.lines.length
  let edits := (List.range missing).map fun i =>
    ⟨kept + i + 1, [], ['}'], "appended missing '\x7d'".toList⟩
  c.edited (c.lines.take kept ++ List.replicate missing ['}'] ++ c.lines.drop kept) edits

end Candidate

end Flatsheet.Repair
