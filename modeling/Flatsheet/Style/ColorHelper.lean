import Flatsheet.Text.Span
import Flatsheet.Text.Sweep

/-!
# `Flatsheet.Style.ColorHelper` — calls of colour functions give way to their first argument

## Contents

* `colorHelpers`: the names of the functions
* `HelperCall.find`: the outermost calls of a text
* `HelperCall.replacement`, `replaceHelpers`
-/

namespace Flatsheet.Style

open Text

/-- The functions that compute a colour from colours. -/
def colorHelpers : List Text :=
  ["lighten", "darken", "mix", "saturate", "desaturate", "adjust-hue", "transparentize", "opacify",
    "fade-in", "fade-out", "tint", "shade"].map String.toList

/-- A call of a colour function. -/
structure HelperCall where
  span : Span
  name : Text
  arguments : List Text
  line : Nat
deriving DecidableEq, Repr

namespace HelperCall

/-- The comment that takes the place of a call without a first argument. -/
def placeholder : Text := "/* color helper removed */".toList

/-- What takes the place of a call: its first argument. The platform ships a hover shade next to the
primary colour, which takes the place of the darkened primary colour. -/
def replacementFor (name : Text) (arguments : List Text) : Text :=
  match arguments with
  | [] => placeholder
  | first :: _ =>
    if first.isEmpty then placeholder
    else if name = "darken".toList && (first = "var(--primary)".toList || first = "$primary".toList)
      then "var(--primaryhover)".toList
    else first

/-- What takes the place of the call. -/
def replacement (h : HelperCall) : Text := replacementFor h.name h.arguments

/-- A name here is part of another one, or is defined here. -/
def isOtherName (c : Cursor) : Bool :=
  c.byteBefore? = some '$' || c.byteBefore? = some '.'
    || ["@include", "@function", "@mixin"].any fun word =>
      startsWith (c.seen.dropWhile isSpaceOrTab) word.toList.reverse

/-- Looks for a call in the code mask of `t`. -/
def look (t : Text) (c : Cursor) : Sighting HelperCall :=
  match colorHelpers.find? fun name => wordHere c.byteBefore? name c.rest with
  | none => .nothing
  | some name =>
    let start := (c.advance name.length).skip isSpaceOrTab
    if isOtherName c || start.byte? ≠ some '(' then .nothing
    else match start.group? '(' ')' with
      | none => .nothing
      | some stop =>
        .found
          ⟨⟨c.pos, stop.pos⟩, name, splitTopLevel ',' (slice t (start.pos + 1) (stop.pos - 1)),
            lineNumberAt t c.pos⟩
          (stop.pos - c.pos)

/-- The outermost calls of a text, in order. -/
def find (t : Text) : List HelperCall := sweep (look t) (codeMask t)

end HelperCall

/-- At most so many rounds of replacing all outermost calls: the text after them, and the calls
replaced, by rounds and last first in each round. -/
def replaceHelperRounds : Nat → Text → Text × List HelperCall
  | 0, t => (t, [])
  | rounds + 1, t =>
    let calls := HelperCall.find t
    if calls.isEmpty then (t, [])
    else
      let (t', others) :=
        replaceHelperRounds rounds (replaceSpans t (calls.map fun h => (h.span, h.replacement)))
      (t', calls.reverse ++ others)

/-- The text without calls of colour functions, and the calls replaced, by rounds and last first in each
round. The first argument of a call can be a call itself. A replacement takes away an opening
parenthesis or a dollar sign and brings none, which bounds the number of rounds. -/
def replaceHelpers (t : Text) : Text × List HelperCall :=
  replaceHelperRounds (t.count '(' + t.count '$') t

end Flatsheet.Style
