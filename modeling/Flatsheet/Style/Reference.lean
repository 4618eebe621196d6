import Flatsheet.Text.Span
import Flatsheet.Text.Sweep
import Flatsheet.Style.Value

/-!
# `Flatsheet.Style.Reference` — turning `$name` into `var(--name)`

## Contents

* `Reference.find`: the references of a code mask
* `Reference.edits`: the replacements of those that stand outside interpolation
* `convertReferences`
-/

namespace Flatsheet.Style

open Text

namespace Reference

/-- Looks for a dollar sign followed by an identifier. -/
def look (c : Cursor) : Sighting (Span × Text) :=
  match c.rest with
  | '$' :: r =>
    if r.head?.any isIdentStart then
      let name := r.takeWhile isIdent
      .found (⟨c.pos, c.pos + 1 + name.length⟩, name) (1 + name.length)
    else .nothing
  | _ => .nothing

/-- The references of a code mask, each with its name. -/
def find (code : Text) : List (Span × Text) := sweep look code

/-- The expression that takes the place of a reference. -/
def replacement (name : Text) : Text := "var(".toList ++ customProperty name ++ ")".toList

/-- The replacements of the references of a text that stand in code and outside interpolation. -/
def edits (t code : Text) : List (Span × Text) :=
  let excluded := interpolations t
  ((find code).filter fun (s, _) => !excluded.any (·.covers s.start)).map fun (s, name) =>
    (s, replacement name)

/-- The text with its references replaced, and how many there were. `code` is the code mask of the
text, or the matching part of the mask of a longer text. -/
def convertMasked (t code : Text) : Text × Nat :=
  let es := edits t code
  (replaceSpans t es, es.length)

end Reference

/-- The text with each `$name` replaced by `var(--name)`, except in comments, quoted strings and
interpolation; and the number of replacements. -/
def convertReferences (t : Text) : Text × Nat := Reference.convertMasked t (codeMask t)

end Flatsheet.Style
