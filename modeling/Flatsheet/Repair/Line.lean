import Flatsheet.Repair.Alteration
import Flatsheet.Style.ColorHelper

/-!
# `Flatsheet.Repair.Line` — repairs of single lines

## Contents

* `isProtected`: the lines that no repair touches
* `commentOut`, `disableSpan`: taking code out of use
* `balanceParens`, `collapseSemicolons`, `needsSemicolon`, `isEmptyValue`
* `includeAt?`, `callsHelper`, `hasVariable`, `replaceVariable`: what a line uses
-/

namespace Flatsheet.Repair

open Text Style

/-! ## Comments -/

/-- Nothing but spaces, tabs and carriage returns. -/
def isBlankLine (line : Text) : Bool := line.all fun c => c = ' ' || c = '\t' || c = '\r'

/-- The line is blank or starts with a comment; no repair touches it. -/
def isProtected (line : Text) : Bool := isBlankLine line || isCommentLine line

/-- The number of spaces and tabs at the start of a line. -/
def indentation (line : Text) : Nat := spanLength isSpaceOrTab line

/-- The line with a line comment mark after its indentation. A line of spaces and tabs stays as it
is. -/
def commentOut (line : Text) : Text :=
  if line.all isSpaceOrTab then line
  else line.takeWhile isSpaceOrTab ++ "// ".toList ++ line.dropWhile isSpaceOrTab

/-- The line with a stretch of it taken out of use: by a line comment if there is nothing else on the
line, else by a block comment around the stretch. -/
def disableSpan (line : Text) (start stop : Nat) : Text :=
  let before := line.take start
  let after := line.drop stop
  if isBlankLine before && isBlankLine after then commentOut line
  else before ++ "/* ".toList ++ breakCommentEnds (trim (slice line start stop)) ++ " */".toList
    ++ after

/-! ## Brackets and semicolons -/

/-- The text without its first `n` closing parentheses. -/
def dropParens (n : Nat) : Text → Text
  | [] => []
  | c :: r =>
    if n = 0 then c :: r
    else if c = ')' then dropParens (n - 1) r
    else c :: dropParens n r

/-- The line with as many closing as opening parentheses in its code: closing ones are added before the
semicolons, braces and spaces at the end of the line, or taken away from the end. -/
def balanceParens (line : Text) : Text :=
  let code := codeMask line
  let opened := code.count '('
  let closed := code.count ')'
  let ending (c : Char) : Bool := c = ';' || c = '{' || c = ' '
  let backwards := (trimRight line).reverse
  let tail := (backwards.takeWhile ending).reverse
  let body := backwards.dropWhile ending
  if opened = closed then line
  else if closed < opened then body.reverse ++ List.replicate (opened - closed) ')' ++ tail
  else (dropParens (closed - opened) body).reverse ++ tail

/-- Each run of semicolons becomes one. -/
def collapseSemicolons : Text → Text
  | ';' :: r => if r.head? = some ';' then collapseSemicolons r else ';' :: collapseSemicolons r
  | c :: r => c :: collapseSemicolons r
  | [] => []

/-- The line, followed by the given lines, is a declaration or a directive that lacks its semicolon. -/
def needsSemicolon (line : Text) (following : List Text) : Bool :=
  let code := trim line
  let continued := match following.find? fun l => !isBlankLine l with
    | some l => (trim l).head? = some '{'
    | none => false
  let complete := code.getLast?.all fun c =>
    c = ';' || c = '{' || c = '}' || c = ',' || c = '('
  !isProtected line && !complete && !continued &&
    if code.head? = some '@' then
      ["@include", "@import", "@use", "@extend"].any (startsWith code ·.toList)
    else code.contains ':'

/-- A property or custom property without a value, and nothing else. -/
def isEmptyValue (line : Text) : Bool :=
  let name := (trimLeft line).dropWhile (· = '-')
  name.head?.any Char.isAlpha &&
    match trimLeft (name.dropWhile isIdent) with
    | ':' :: r =>
      match trimLeft r with
      | ';' :: rest => rest.all isBlank
      | _ => false
    | _ => false

/-! ## What a line uses -/

/-- Looks for an include of the named mixin, or of any mixin if the name is empty. -/
def lookInclude (name : Text) (c : Cursor) : Sighting Nat :=
  if startsWith c.rest "@include".toList then
    let after := (c.advance 8).skip isSpaceOrTab
    let here :=
      if name.isEmpty then after.byte?.any isIdent
      else wordHere after.byteBefore? name after.rest
    if here then .found c.pos 8 else .nothing
  else .nothing

/-- The offset of the first include of the named mixin, or of any mixin if the name is empty. -/
def includeAt? (line name : Text) : Option Nat := (sweep (lookInclude name) line).head?

/-- Looks for a call of a colour function. -/
def lookHelper (c : Cursor) : Sighting Unit :=
  let bounded := c.byteBefore?.all fun b => !isIdent b && b ≠ '$' && b ≠ '.'
  if bounded && colorHelpers.any fun name => startsWith c.rest (name ++ ['(']) then .found () 1
  else .nothing

/-- The line calls a colour function. -/
def callsHelper (line : Text) : Bool := !(sweep lookHelper line).isEmpty

/-- The line has a dollar sign before an identifier byte. -/
def hasVariable : Text → Bool
  | [] => false
  | c :: r => (c = '$' && r.head?.any isIdent) || hasVariable r

/-- Looks for the text of a reference. It is a use of the variable unless its name goes on. -/
def lookUse (reference : Text) (c : Cursor) : Sighting (Option Span) :=
  if startsWith c.rest reference then
    let use :=
      if (c.rest.drop reference.length).head?.any isIdent then none
      else some ⟨c.pos, c.pos + reference.length⟩
    .found use reference.length
  else .nothing

/-- The line with each use of a variable replaced by the custom property of that name. -/
def replaceVariable (name line : Text) : Text :=
  replaceSpans line ((sweep (lookUse ('$' :: name)) line).filterMap fun use =>
    use.map fun s => (s, "var(--".toList ++ name ++ ")".toList))

end Flatsheet.Repair
