import Flatsheet.Style.ColorHelper

/-!
# `Flatsheet.Check.Remaining` — constructs that a conversion has left over
-/

namespace Flatsheet.Check

open Text Style

/-- The names of the constructs of a text that still need a preprocessor, each once. -/
structure Remaining where
  vars : List Text := []
  mixins : List Text := []
  helpers : List Text := []
deriving DecidableEq, Repr

/-- Something is left over. -/
def Remaining.any (r : Remaining) : Bool :=
  !r.vars.isEmpty || !r.mixins.isEmpty || !r.helpers.isEmpty

/-- Looks for a variable whose name starts with a letter or `_`. -/
def lookVariable (c : Cursor) : Sighting Text :=
  match c.rest with
  | '$' :: r =>
    if r.head?.any fun b => b.isAlpha || b = '_' then
      .found (r.takeWhile isIdent) (1 + spanLength isIdent r)
    else .nothing
  | _ => .nothing

/-- Looks for an include and gives the name after it, which may be empty. -/
def lookInclude (c : Cursor) : Sighting Text :=
  if startsWith c.rest "@include".toList then
    let name := (c.advance 8).skip isBlank
    .found (name.rest.takeWhile isIdent) (name.pos - c.pos + spanLength isIdent name.rest)
  else .nothing

/-- What a text still holds of variables, includes and colour functions. -/
def Remaining.of (t : Text) : Remaining :=
  let code := codeMask t
  ⟨(sweep lookVariable code).eraseDups,
    ((sweep lookInclude code).filter fun name => !name.isEmpty).eraseDups,
    ((HelperCall.find t).map (·.name)).eraseDups⟩

end Flatsheet.Check
