import Flatsheet.Style.AssetPath
import Flatsheet.Style.ColorHelper
import Flatsheet.Style.Expansion
import Flatsheet.Style.Hoist
import Flatsheet.Style.Import
import Flatsheet.Style.Layout

/-!
# `Flatsheet.Conversion.Record` — one style sheet on its way through the passes

## Contents

* `Step`: how far a conversion has come
* `Counters`: how much the passes have done
* `Conversion`: the text, what was found in it and what was done to it
-/

namespace Flatsheet

open Text Style

/-- How far a conversion has come. -/
inductive Step
  | pending
  | variableProcessing
  | pathConversion
  | functionConversion
  | mixinConversion
  | importRemoval
  | validation
  | cleanup
  | complete
deriving DecidableEq, Repr

/-- The word for a step. -/
def Step.name : Step → Text
  | pending => "pending".toList
  | variableProcessing => "variable_processing".toList
  | pathConversion => "path_conversion".toList
  | functionConversion => "function_conversion".toList
  | mixinConversion => "mixin_conversion".toList
  | importRemoval => "import_removal".toList
  | validation => "validation".toList
  | cleanup => "cleanup".toList
  | complete => "complete".toList

/-- How much the passes have done. -/
structure Counters where
  variablesHoisted : Nat := 0
  mixinsResolved : Nat := 0
  mixinsMarked : Nat := 0
  mixinDefinitionsRemoved : Nat := 0
  functionsReplaced : Nat := 0
  pathsConverted : Nat := 0
  importsRemoved : Nat := 0
deriving DecidableEq, Repr

/-- The sum of two counts, field by field. -/
def Counters.add (a b : Counters) : Counters :=
  ⟨a.variablesHoisted + b.variablesHoisted, a.mixinsResolved + b.mixinsResolved,
    a.mixinsMarked + b.mixinsMarked, a.mixinDefinitionsRemoved + b.mixinDefinitionsRemoved,
    a.functionsReplaced + b.functionsReplaced, a.pathsConverted + b.pathsConverted,
    a.importsRemoved + b.importsRemoved⟩

/-- One style sheet on its way through the passes. -/
structure Conversion where
  /-- The text as it was at first. -/
  source : Text
  fileName : Text := []
  /-- The text as it is now. -/
  content : Text
  step : Step := .pending
  vars : List Variable := []
  mixins : List MixinCall := []
  helpers : List HelperCall := []
  imports : List Import := []
  counters : Counters := {}
  /-- The names of the transformations done, each once. -/
  transformations : List Text := []
deriving Repr

namespace Conversion

/-- The conversion of a text before any pass. -/
def start (source : Text) (fileName : Text := []) : Conversion :=
  { source, fileName, content := source }

/-- A transformation of that name has been done. -/
def hasTransformation (c : Conversion) (name : Text) : Bool := c.transformations.contains name

/-- Records a transformation, unless it is recorded already. -/
def addTransformation (c : Conversion) (name : Text) : Conversion :=
  if c.hasTransformation name then c else { c with transformations := c.transformations ++ [name] }

/-- The variable of that name. -/
def findVariable? (c : Conversion) (name : Text) : Option Variable :=
  c.vars.find? (·.name = name)

end Conversion

end Flatsheet
