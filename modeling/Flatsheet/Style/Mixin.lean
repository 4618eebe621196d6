import Flatsheet.Text.Span
import Flatsheet.Text.Sweep

/-!
# `Flatsheet.Style.Mixin` — finding mixin definitions and includes

## Contents

* `MixinDefinition.find`: the definitions of a text
* `Include`, `Include.find`: the outermost includes of a text
-/

namespace Flatsheet.Style

open Text

/-- A mixin definition, from `@mixin` to the brace that closes its body. -/
structure MixinDefinition where
  span : Span
  name : Text
deriving DecidableEq, Repr

/-- Looks for a definition in the code mask of `t`. A definition without a body is none; after a
parameter list or a body that is never closed, nothing more is found. -/
def MixinDefinition.look (t : Text) (c : Cursor) : Sighting MixinDefinition :=
  let name := (c.advance 6).skip isBlank
  let nameEnd := name.skip isIdent
  let next := nameEnd.skip isBlank
  let body? :=
    if next.byte? = some '(' then (next.group? '(' ')').map (·.skip isBlank) else some next
  if !startsWith c.rest "@mixin".toList || (c.advance 6).byte?.any isIdent then .nothing
  else if nameEnd.pos = name.pos then .nothing
  else match body? with
    | none => .over
    | some body =>
      if body.byte? ≠ some '{' then .nothing
      else match body.group? '{' '}' with
        | none => .over
        | some stop =>
          .found ⟨⟨c.pos, stop.pos⟩, slice t name.pos nameEnd.pos⟩ (stop.pos - c.pos)

/-- The mixin definitions of a text, in order. -/
def MixinDefinition.find (t : Text) : List MixinDefinition := sweep (look t) (codeMask t)

/-- What an include asks for. -/
structure MixinCall where
  name : Text
  parameters : List Text
  /-- The trimmed content block, if there is one. -/
  block : Option Text
  line : Nat
deriving DecidableEq, Repr

/-- An include with its place: the arguments, the content block and the semicolon are part of it. -/
structure Include where
  span : Span
  call : MixinCall
deriving DecidableEq, Repr

/-- The bytes of `t` between the delimiters of a group. -/
def groupInside (t : Text) (start stop : Cursor) : Text := slice t (start.pos + 1) (stop.pos - 1)

/-- Looks for an include in the code mask of `t`. After an argument list or a content block that is
never closed, nothing more is found. -/
def Include.look (t : Text) (c : Cursor) : Sighting Include :=
  let name := (c.advance 8).skip isBlank
  let nameEnd := name.skip fun b => isIdent b || b = '.'
  /- After a group that may stand here: its inside, and the place after it. -/
  let group? (opener closer : Char) (here : Cursor) : Option (Option Text × Cursor) :=
    let start := here.skip isBlank
    if start.byte? = some opener then
      (start.group? opener closer).map fun stop => (some (groupInside t start stop), stop)
    else some (none, here)
  if !startsWith c.rest "@include".toList || (c.advance 8).byte?.any isIdent then .nothing
  else if nameEnd.pos = name.pos then .nothing
  else match group? '(' ')' nameEnd with
    | none => .over
    | some (arguments, afterArguments) =>
      match group? '{' '}' afterArguments with
      | none => .over
      | some (block, afterBlock) =>
        let semicolon := afterBlock.skip isBlank
        let stop := if semicolon.byte? = some ';' then semicolon.pos + 1 else afterBlock.pos
        .found
          ⟨⟨c.pos, stop⟩,
            ⟨slice t name.pos nameEnd.pos, (arguments.map (splitTopLevel ',')).getD [],
              block.map trim, lineNumberAt t c.pos⟩⟩
          (stop - c.pos)

/-- The outermost includes of a text, in order. -/
def Include.find (t : Text) : List Include := sweep (look t) (codeMask t)

end Flatsheet.Style
