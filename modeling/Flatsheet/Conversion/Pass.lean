import Flatsheet.Conversion.Record

/-!
# `Flatsheet.Conversion.Pass` — the converting passes

A pass changes the text of a conversion, adds what it found to the conversion's records and says what it
did.

## Contents

* `Pass` with its name and step
* `Pass.apply`
-/

namespace Flatsheet

open Text Style

/-- The passes. -/
inductive Pass
  /-- Variables become custom properties. -/
  | vars
  /-- Relative asset addresses become absolute. -/
  | paths
  /-- Colour functions give way to their arguments. -/
  | helpers
  /-- Mixin definitions go, includes are expanded. -/
  | mixins
  /-- Imports go. -/
  | imports
  /-- Line ends and blank lines are tidied. -/
  | layout
deriving DecidableEq, Repr

namespace Pass

/-- The name under which a pass is recorded. -/
def name : Pass → Text
  | vars => "variables_to_custom_properties".toList
  | paths => "asset_paths_rewritten".toList
  | helpers => "color_helpers_replaced".toList
  | mixins => "mixins_expanded".toList
  | imports => "imports_removed".toList
  | layout => "content_cleaned".toList

/-- The step that a pass is. -/
def step : Pass → Step
  | vars => .variableProcessing
  | paths => .pathConversion
  | helpers => .functionConversion
  | mixins => .mixinConversion
  | imports => .importRemoval
  | layout => .cleanup

/-- A note of a pass. -/
def note (severity : Severity) (stage : String) (message : Text) : Note :=
  ⟨severity, "scss".toList, stage.toList, message⟩

/-- Variables become custom properties. -/
def applyVariables (c : Conversion) : Conversion × List Note :=
  let h := hoist c.content
  let n := h.vars.length
  ({ c with
      content := h.content, vars := h.vars
      counters := { c.counters with variablesHoisted := n } },
    h.notes ++ [note .info "variables" (Text.ofNat n ++ " variables hoisted, ".toList
      ++ Text.ofNat h.converted ++ " usages rewritten".toList)])

/-- Relative asset addresses become absolute. -/
def applyPaths (hosts : AssetHosts) (c : Conversion) : Conversion × List Note :=
  let (content, n) := hosts.makeAbsolute c.content
  ({ c with
      content
      counters := { c.counters with pathsConverted := c.counters.pathsConverted + n } },
    [note .info "paths" (Text.ofNat n ++ " asset URLs rewritten".toList)])

/-- Colour functions give way to their arguments. Calls are recorded by line. -/
def applyHelpers (c : Conversion) : Conversion × List Note :=
  let (content, calls) := replaceHelpers c.content
  let n := calls.length
  ({ c with
      content
      helpers := (c.helpers ++ calls).mergeSort fun a b => a.line ≤ b.line
      counters := { c.counters with functionsReplaced := c.counters.functionsReplaced + n } },
    [note .info "functions" (Text.ofNat n ++ " color helper calls replaced".toList)])

/-- Mixin definitions go, includes are expanded. Calls are recorded by line. -/
def applyMixins (c : Conversion) : Conversion × List Note :=
  let (body, removed) := removeDefinitions c.content
  let (content, calls) := expandIncludes body
  let unresolved := calls.filter fun call => !call.isResolved
  let counters := { c.counters with
    mixinDefinitionsRemoved := c.counters.mixinDefinitionsRemoved + removed
    mixinsResolved := c.counters.mixinsResolved + (calls.filter (·.isResolved)).length
    mixinsMarked := c.counters.mixinsMarked + unresolved.length }
  ({ c with
      content, counters
      mixins := (c.mixins ++ calls).mergeSort fun a b => a.line ≤ b.line },
    unresolved.map MixinCall.unresolvedNote ++
      [note .info "mixins" (Text.ofNat counters.mixinsResolved ++ " includes expanded, ".toList
        ++ Text.ofNat counters.mixinsMarked ++ " marked, ".toList ++ Text.ofNat removed
        ++ " definitions removed".toList)])

/-- Imports go. -/
def applyImports (c : Conversion) : Conversion × List Note :=
  let (content, removed) := removeImports c.content
  let n := removed.length
  ({ c with
      content, imports := c.imports ++ removed
      counters := { c.counters with importsRemoved := c.counters.importsRemoved + n } },
    [note .info "imports" (Text.ofNat n ++ " import statements removed".toList)])

/-- Line ends and blank lines are tidied. -/
def applyLayout (c : Conversion) : Conversion × List Note :=
  let content := clean c.content
  ({ c with content },
    [note .debug "cleanup" ("normalized whitespace, ".toList
      ++ Text.ofNat (c.content.length - content.length) ++ " bytes dropped".toList)])

/-- A pass over a conversion, and what it says. -/
def apply (hosts : AssetHosts) (p : Pass) (c : Conversion) : Conversion × List Note :=
  let (c', notes) := match p with
    | vars => applyVariables c
    | paths => applyPaths hosts c
    | helpers => applyHelpers c
    | mixins => applyMixins c
    | imports => applyImports c
    | layout => applyLayout c
  ({ c'.addTransformation p.name with step := p.step }, notes)

end Pass

end Flatsheet
