import Flatsheet.Log.CompileError
import Flatsheet.Repair.Candidate
import Flatsheet.Style.Reference

/-!
# `Flatsheet.Repair.Fixer` — repairs for the errors of the compiler

Each kind of error has its repair. An error that names one of the files is repaired in that file, any
other one in all files. When nothing else helps, the aggressive repair takes everything out of use that
still needs a preprocessor.

## Contents

* `onFiles`: a repair of some of the files
* `fixVariable`, `fixMixin`, `fixSyntax`, `fixInvalidCss`: repairs by kind of error
* `fix`, `fixAll`, `fixAggressively`
-/

namespace Flatsheet.Repair

open Text Log

/-! ## Repairs of files -/

/-- A repair of the files in scope, in order. -/
def onFiles (inScope : Candidate → Bool) (repair : Candidate → Candidate × List Alteration)
    (files : List Candidate) : List Candidate × List Alteration :=
  let results := files.map fun f => if inScope f then repair f else (f, [])
  (results.map (·.1), results.flatMap (·.2))

/-- Balances the parentheses of a line. -/
def balanceLine (line : Text) : LineRepair :=
  if isProtected line then .keep
  else .replace (balanceParens line) "balanced parentheses".toList

/-- The repair of one line only. -/
def onlyLine (n : Nat) (decide : Text → LineRepair) (m : Nat) (line : Text) : LineRepair :=
  if m = n then decide line else .keep

/-- The file has a line of that number. -/
def hasLine (n : Nat) (c : Candidate) : Bool := 0 < n && n ≤ c.lines.length

/-! ## Undefined names -/

/-- Uses of an undefined variable become uses of the custom property; its declarations stay. -/
def fixVariable (name : Text) (c : Candidate) : Candidate × List Alteration :=
  let reference := '$' :: name
  let reason := "undefined variable ".toList ++ reference ++ " -> var(--".toList ++ name
    ++ ")".toList
  c.repair fun _ line =>
    if isProtected line || startsWith (trim line) (reference ++ [':']) then .keep
    else .replace (replaceVariable name line) reason

/-- Includes of an undefined mixin are taken out of use. -/
def fixMixin (name : Text) (c : Candidate) : Candidate × List Alteration :=
  let reason := "commented out undefined mixin '".toList ++ name ++ "'".toList
  c.repair fun _ line =>
    match if isProtected line then none else includeAt? line name with
    | none => .keep
    | some start => .disable start reason

/-! ## Syntax -/

/-- The line that lacks a semicolon, among the given one and the two before it. -/
def semicolonLine? (lines : List Text) (n : Nat) : Option Nat :=
  [n, n - 1, n - 2].find? fun k =>
    0 < k && match lines.drop (k - 1) with
      | l :: ls => needsSemicolon l ls
      | [] => false

/-- A semicolon is added at or shortly before a line; if none is missing there, and none was asked for,
the parentheses of the line are balanced. -/
def fixSemicolon (token : Text) (n : Nat) (c : Candidate) : Candidate × List Alteration :=
  match semicolonLine? c.lines n with
  | some k => c.repair (onlyLine k fun line =>
      .replace (trimRight line ++ [';']) "appended missing ';'".toList)
  | none => if token = [';'] then (c, []) else c.repair (onlyLine n balanceLine)

/-- The error is about parentheses. -/
def isParenError (e : CompileError) : Bool :=
  e.name = [')'] || e.name = ['('] || has (lower e.raw) "paren".toList

/-- The error is about a block that is not closed. -/
def isBlockError (e : CompileError) : Bool :=
  e.name = ['}'] || has (lower e.raw) "unclosed block".toList

/-- The repair of a syntax error in one file. -/
def fixSyntax (e : CompileError) (c : Candidate) : Candidate × List Alteration :=
  if isBlockError e then c.closeBlocks
  else match e.line with
    | some n =>
      if !hasLine n c then (c, [])
      else if isParenError e then c.repair (onlyLine n balanceLine)
      else fixSemicolon e.name n c
    | none =>
      if !isParenError e && 0 < c.braceBalance then c.closeBlocks
      else c.repair fun _ => balanceLine

/-! ## Invalid declarations -/

/-- The repair of a line with doubled semicolons or without a value, if it is such a line. -/
def tidyLine? (line : Text) : Option LineRepair :=
  if has line ";;".toList then
    some (.replace (collapseSemicolons line) "removed doubled ';'".toList)
  else if isEmptyValue line then
    some (.replace (commentOut line) "commented out empty value".toList)
  else none

/-- Take the statement at the start of a line out of use. -/
def disableLine (line : Text) : LineRepair :=
  .disable (indentation line) "commented out invalid CSS".toList

/-- The repair of a line that the compiler rejects: it is tidied, or its parentheses are balanced, or it
is taken out of use. -/
def fixRejectedLine (line : Text) : LineRepair :=
  if isProtected line then .keep
  else match tidyLine? line with
    | some r => r
    | none => if balanceParens line = line then disableLine line else balanceLine line

/-- The repair of a line that may be the rejected one. -/
def fixSuspectLine (line : Text) : LineRepair :=
  if isProtected line then .keep else (tidyLine? line).getD .keep

/-- The repair of a line that holds the rejected piece. -/
def fixPiece (piece line : Text) : LineRepair :=
  if isProtected line || !has line piece then .keep else disableLine line

/-- The repair of invalid declarations. Without a line number all lines are tidied; if there is nothing to
tidy, the statements that hold the rejected piece are taken out of use. -/
def fixInvalidCss (e : CompileError) (inScope : Candidate → Bool) (files : List Candidate) :
    List Candidate × List Alteration :=
  match e.line with
  | some n =>
    onFiles inScope
      (fun c => if hasLine n c then c.repair (onlyLine n fixRejectedLine) else (c, [])) files
  | none =>
    let (tidied, alterations) := onFiles inScope (·.repair fun _ => fixSuspectLine) files
    if !alterations.isEmpty || (trim e.name).isEmpty then (tidied, alterations)
    else onFiles inScope (·.repair fun _ => fixPiece (trim e.name)) files

/-! ## Repairs by error -/

/-- The error names the file, as target or as candidate. -/
def names (e : CompileError) (c : Candidate) : Bool :=
  e.file.any fun f => f = Path.fileName c.path || f = Path.fileName c.target

/-- The repair of an error: the files after it and the alterations it made. A line number counts only if
the error names one of the files or there is only one. -/
def fix (e : CompileError) (files : List Candidate) : List Candidate × List Alteration :=
  let pinned := files.any (names e)
  let inScope (c : Candidate) : Bool := !pinned || names e c
  let e := if pinned || files.length = 1 then e else { e with line := none }
  match e.kind with
  | .undefinedVariable =>
    if e.name.isEmpty then (files, []) else onFiles inScope (fixVariable e.name) files
  | .undefinedMixin =>
    if e.name.isEmpty then (files, []) else onFiles inScope (fixMixin e.name) files
  | .syntaxError => onFiles inScope (fixSyntax e) files
  | .invalidCss => fixInvalidCss e inScope files

/-- The repairs of several errors, one after the other. -/
def fixAll : List CompileError → List Candidate → List Candidate × List Alteration
  | [], files => (files, [])
  | e :: es, files =>
    let (files, first) := fix e files
    let (files, others) := fixAll es files
    (files, first ++ others)

/-! ## The aggressive repair -/

/-- Takes a mixin call, a colour function or a variable out of use. A line that opens or closes a block
keeps its braces, and its references are converted instead. -/
def fixAnyLine (line : Text) : LineRepair :=
  if isProtected line then .keep
  else match includeAt? line [] with
    | some start => .disable start "aggressive: commented out mixin call".toList
    | none =>
      if line.contains '{' || line.contains '}' then
        if hasVariable line then
          .replace (Style.convertReferences line).1
            "aggressive: converted variable references".toList
        else .keep
      else if callsHelper line then
        .replace (commentOut line) "aggressive: commented out color helper".toList
      else if hasVariable line then
        .replace (commentOut line) "aggressive: commented out variable".toList
      else .keep

/-- Takes everything out of use that still needs a preprocessor. -/
def fixAggressively (files : List Candidate) : List Candidate × List Alteration :=
  onFiles (fun _ => true) (·.repair fun _ => fixAnyLine) files

end Flatsheet.Repair
