import Flatsheet.Check.Validation
import Flatsheet.Conversion.Pass
import Flatsheet.Settings
import Flatsheet.StageTrace

/-!
# `Flatsheet.Conversion.Processor` — the conversion of one style sheet

The passes run in a fixed order: variables, asset paths, colour functions, mixins, imports. The result is
validated and then tidied.

## Contents

* `Mode`, `ConversionOptions`: which passes run
* `Refusal`: why a text is not processed at all
* `Processed`: the result, with its one-line summary
* `process`, `preview`
-/

namespace Flatsheet

open Text Style Check

/-- What a run of the processor does. -/
inductive Mode
  | full
  | variablesOnly
  | mixinsOnly
  | validationOnly
  /-- Everything, but the text stays as it is. -/
  | dryRun
deriving DecidableEq, Repr

namespace Mode

/-- The word for a mode. -/
def name : Mode → Text
  | full => "full".toList
  | variablesOnly => "variables_only".toList
  | mixinsOnly => "mixins_only".toList
  | validationOnly => "validation_only".toList
  | dryRun => "dry_run".toList

/-- The mode that a word names exactly. -/
def ofName? (t : Text) : Option Mode :=
  [full, variablesOnly, mixinsOnly, validationOnly, dryRun].find? fun m => m.name = t

end Mode

/-- How a style sheet is processed. -/
structure ConversionOptions where
  mode : Mode := .full
  convertVariables : Bool := true
  convertPaths : Bool := true
  convertFunctions : Bool := true
  convertMixins : Bool := true
  removeImports : Bool := true
  validateSyntax : Bool := true
  /-- Have a compiler try the result. -/
  testCompilation : Bool := false
  /-- An invalid result is a failure. -/
  strictMode : Bool := false
  maxFileSizeBytes : Nat := ({} : Settings).maxFileSizeBytes
  hosts : AssetHosts := ⟨({} : Settings).themeBaseUrl, ({} : Settings).commonThemeUrl⟩
deriving DecidableEq, Repr

namespace ConversionOptions

/-- The options that settings ask for. -/
def ofSettings (s : Settings) : ConversionOptions where
  strictMode := s.strictMode
  maxFileSizeBytes := s.maxFileSizeBytes
  hosts := ⟨s.themeBaseUrl, s.commonThemeUrl⟩

/-- The passes that run before the validation, in order. -/
def passes (o : ConversionOptions) : List Pass :=
  let full := o.mode = .full || o.mode = .dryRun
  (if o.convertVariables && (full || o.mode = .variablesOnly) then [.vars] else [])
    ++ (if full && o.convertPaths then [.paths] else [])
    ++ (if full && o.convertFunctions then [.helpers] else [])
    ++ (if o.convertMixins && (full || o.mode = .mixinsOnly) then [.mixins] else [])
    ++ (if full && o.removeImports then [.imports] else [])

end ConversionOptions

/-- Why a text is not processed at all. -/
inductive Refusal
  | emptyContent
  | oversize (bytes limit : Nat)
deriving DecidableEq, Repr

/-- The text of a refusal. -/
def Refusal.message : Refusal → Text
  | emptyContent => "content is empty".toList
  | oversize bytes limit =>
    "content is ".toList ++ Text.ofNat bytes ++ " bytes, over the ".toList ++ Text.ofNat limit
      ++ " byte limit".toList

/-- A text without a byte other than space, tab, line feed and carriage return is refused, and one of too
many bytes. -/
def ConversionOptions.refusal? (o : ConversionOptions) (content : Text) : Option Refusal :=
  if content.all fun c => c = ' ' || c = '\t' || c = '\r' || c = '\n' then some .emptyContent
  else if o.maxFileSizeBytes < content.length then
    some (.oversize content.length o.maxFileSizeBytes)
  else none

/-- The result of processing a style sheet. -/
structure Processed where
  success : Bool := false
  fileName : Text := []
  mode : Mode := .full
  output : Text := []
  inputBytes : Nat := 0
  refusal : Option Refusal := none
  counters : Counters := {}
  transformations : List Text := []
  validation : Option Validation := none
  trace : StageTrace Step := {}
deriving Repr

namespace Processed

/-- The size of the output. -/
def outputBytes (p : Processed) : Nat := p.output.length

/-- The issues that are errors. -/
def errors (p : Processed) : List Issue := (p.validation.map (·.errors)).getD []

/-- The issues that are warnings. -/
def warnings (p : Processed) : List Issue := (p.validation.map (·.warnings)).getD []

/-- By how many percent the output is smaller than the input. -/
def sizeReductionPercent (p : Processed) : Float :=
  if p.inputBytes = 0 then 0.0
  else (p.inputBytes.toFloat - p.outputBytes.toFloat) * 100.0 / p.inputBytes.toFloat

/-- The result on one line. -/
def summary (p : Processed) : Text :=
  let c := p.counters
  (if p.fileName.isEmpty then "<input>".toList else p.fileName) ++ ": ".toList
    ++ (if p.success then "ok".toList else "failed".toList)
    ++ ", ".toList ++ Text.ofNat c.variablesHoisted ++ " variables, ".toList
    ++ Text.ofNat c.mixinsResolved ++ "/".toList ++ Text.ofNat (c.mixinsResolved + c.mixinsMarked)
    ++ " mixins expanded, ".toList ++ Text.ofNat c.functionsReplaced ++ " helpers, ".toList
    ++ Text.ofNat c.importsRemoved ++ " imports removed, ".toList ++ Text.ofNat p.inputBytes
    ++ " -> ".toList ++ Text.ofNat p.outputBytes ++ " bytes".toList
    ++ (if p.errors.isEmpty && p.warnings.isEmpty then []
        else ", ".toList ++ Text.ofNat p.errors.length ++ " errors, ".toList
          ++ Text.ofNat p.warnings.length ++ " warnings".toList)

/-- The finished result, and the note that reports it after the others. -/
def finish (p : Processed) (notes : List Note) : Processed × List Note :=
  let p := { p with trace := p.trace.record .complete }
  (p, notes ++
    [⟨if p.success then .info else .error, "scss".toList, "process".toList, p.summary⟩])

end Processed

/-- Passes one after the other. -/
def runPasses (hosts : AssetHosts) : List Pass → Conversion → Conversion × List Note
  | [], c => (c, [])
  | p :: ps, c =>
    let (c, notes) := p.apply hosts c
    let (c, more) := runPasses hosts ps c
    (c, notes ++ more)

/-- The compiler, if the options ask for one. -/
def ConversionOptions.compiler? {σ : Type} (o : ConversionOptions) (compiler : Option (Compiler σ)) :
    Option (Compiler σ) :=
  if o.testCompilation then compiler else none

/-- The verdict on the result of the passes, if the options ask for one. -/
def ConversionOptions.verdict {σ : Type} (o : ConversionOptions) (compiler : Option (Compiler σ))
    (content : Text) (world : σ) : Except Text (Option Validation × List Note) × σ :=
  if o.validateSyntax then
    match validate (o.compiler? compiler) content world with
    | (.error message, world) => (.error message, world)
    | (.ok (v, notes), world) => (.ok (some v, notes), world)
  else (.ok (none, []), world)

/-- Processes a style sheet. If the compiler breaks down, its message is all there is. -/
def process {σ : Type} (o : ConversionOptions) (compiler : Option (Compiler σ)) (content fileName : Text)
    (world : σ) : Except Text (Processed × List Note) × σ :=
  let base : Processed := { fileName, mode := o.mode, inputBytes := content.length }
  match o.refusal? content with
  | some r => (.ok ({ base with refusal := some r }.finish []), world)
  | none =>
    if o.mode = .validationOnly then
      match validate (o.compiler? compiler) content world with
      | (.error message, world) => (.error message, world)
      | (.ok (v, notes), world) =>
        let result : Processed := { base with
          output := content, success := !o.strictMode || v.isValid, validation := some v
          trace := base.trace.record .validation }
        (.ok (result.finish notes), world)
    else
      let (c, notes) := runPasses o.hosts o.passes (.start content fileName)
      let trace := o.passes.foldl (fun t p => t.record p.step) base.trace
      match o.verdict compiler c.content world with
      | (.error message, world) => (.error message, world)
      | (.ok (v, more), world) =>
        let trace := if v.isSome then trace.record .validation else trace
        let (c, last) := Pass.layout.apply o.hosts c
        let result : Processed := { base with
          counters := c.counters, transformations := c.transformations, validation := v
          trace := trace.record .cleanup
          output := if o.mode = .dryRun then content else c.content
          success := !o.strictMode || v.all (·.isValid) }
        (.ok (result.finish (notes ++ more ++ last)), world)

/-- What a run would touch. -/
structure Preview where
  vars : List Variable
  mixins : List MixinCall
  helpers : List HelperCall
  imports : List Import

/-- What a run would touch, found without changing anything, and what there is to say about it. -/
def preview (content : Text) : Preview × List Note :=
  let (vars, notes) := Variable.extract content
  (⟨vars, (Include.find content).map (·.call), HelperCall.find content, Import.find content⟩,
    notes)

end Flatsheet
