import Flatsheet.Text.Span
import Flatsheet.Text.Sweep
import Flatsheet.Style.Value

/-!
# `Flatsheet.Style.Import` — finding and removing import statements

## Contents

* `Import`, `Import.find`
* `removeImports`
-/

namespace Flatsheet.Style

open Text

/-- An import statement, with its semicolon if it has one. -/
structure Import where
  span : Span
  paths : List Text
  line : Nat
deriving DecidableEq, Repr

/-- A path without `url(…)` and without quotes around it. -/
def unquotePath (path : Text) : Text :=
  if startsWith path "url(".toList && path.getLast? = some ')' then
    unquote (trim ((path.drop 4).dropLast))
  else unquote path

/-- The number of bytes of an import statement after its keyword, and whether a semicolon follows them.
Without a semicolon the statement ends before the next brace, or at a line break without a comma before
or after it. `last` is the last byte read that is not blank. -/
def importLength (parens : Nat) (last : Option Char) : Text → Nat × Bool
  | [] => (0, false)
  | c :: r =>
    let further (parens : Nat) : Nat × Bool :=
      let (n, terminated) := importLength parens (if isBlank c then last else some c) r
      (n + 1, terminated)
    if c = '(' then further (parens + 1)
    else if c = ')' then further (parens - 1)
    else if 0 < parens then further parens
    else if c = ';' then (0, true)
    else if c = '{' || c = '}' then (0, false)
    else if c = '\n' && last ≠ some ',' && (trimLeft r).head? ≠ some ',' then (0, false)
    else further parens

namespace Import

/-- One of the paths is not relative. -/
def isExternal (i : Import) : Bool := i.paths.any fun p => p.head?.any (· ≠ '.')

/-- Looks for an import statement in the code mask of `t`. -/
def look (t : Text) (c : Cursor) : Sighting Import :=
  let start := c.advance 7
  if !startsWith c.rest "@import".toList || start.byte?.any isIdent then .nothing
  else
    let (n, terminated) := importLength 0 none start.rest
    let length := if terminated then n else (trimRight (start.rest.take n)).length
    let stop := start.pos + length + if terminated then 1 else 0
    .found
      ⟨⟨c.pos, stop⟩,
        (splitTopLevel ',' (slice t start.pos (start.pos + length))).map unquotePath,
        lineNumberAt t c.pos⟩
      (stop - c.pos)

/-- The import statements of a text, in order. -/
def find (t : Text) : List Import := sweep (look t) (codeMask t)

end Import

/-- The text without its import statements, and these statements. -/
def removeImports (t : Text) : Text × List Import :=
  let imports := Import.find t
  (eraseStatements t (imports.map (·.span)), imports)

end Flatsheet.Style
