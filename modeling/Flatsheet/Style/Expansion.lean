import Flatsheet.Diagnostic
import Flatsheet.Style.Recipe

/-!
# `Flatsheet.Style.Expansion` — rounds of include expansion

An expansion can bring to light includes that stood in a content block or in an argument, so includes
are replaced in rounds: all outermost includes of the text at once, until there is none.

An expansion can also repeat an argument, with the includes in it. So the number of rounds is not bounded by
the text: it can be exponential in its length, and there are texts that get longer in each round.

## Contents

* `MixinCall.replacement`, `expandRound`
* `expansionLimit`, `expandIncludes`: all rounds
* `removeDefinitions`: mixin definitions cut out
-/

namespace Flatsheet.Style

open Text

/-- The mixin has a recipe, and the call gives it the arguments that it needs. -/
def MixinCall.isResolved (call : MixinCall) : Bool := call.expand?.isSome

/-- What takes the place of an include. -/
def MixinCall.replacement (call : MixinCall) : Text := call.expand?.getD call.marker

/-- The text after the given includes of it have been replaced. -/
def expandRound (t : Text) (includes : List Include) : Text :=
  replaceSpans t (includes.map fun i => (i.span, i.call.replacement))

/-- At most so many rounds: the text after them, and the calls replaced, by rounds and last first in
each round. -/
def expandRounds : Nat → Text → Text × List MixinCall
  | 0, t => (t, [])
  | rounds + 1, t =>
    let includes := Include.find t
    if includes.isEmpty then (t, [])
    else
      let (t', calls) := expandRounds rounds (expandRound t includes)
      (t', includes.reverse.map (·.call) ++ calls)

/-- After so many rounds expansion is given up: each round records a call, and no memory has room for so
many. -/
@[irreducible]
def expansionLimit : Nat := UInt64.size

/-- The text without includes, and the calls replaced, by rounds and last first in each round. -/
def expandIncludes (t : Text) : Text × List MixinCall := expandRounds expansionLimit t

/-- The text without its mixin definitions, and their number. -/
def removeDefinitions (t : Text) : Text × Nat :=
  let defs := MixinDefinition.find t
  (eraseStatements t (defs.map (·.span)), defs.length)

/-- The warning about an include that was not expanded. -/
def MixinCall.unresolvedNote (call : MixinCall) : Note :=
  ⟨.warning, "scss".toList, "mixins".toList,
    "no expansion for @include ".toList ++ call.name ++ " on line ".toList ++ Text.ofNat call.line
      ++ "; marked for manual review".toList⟩

end Flatsheet.Style
