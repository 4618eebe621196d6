import Flatsheet.Check.Remaining
import Flatsheet.Check.Syntax

/-!
# `Flatsheet.Check.Validation` — the verdict on a style sheet

A validation runs the syntactic checks and, if a compiler is at hand, has it compile the text. A compiler
acts on a world of its own, of type `σ`: it can be asked whether it is available, and it can break down
with a message.

## Contents

* `Compiler`, `CompileOutcome`
* `Validation`, `checkSyntax`, `checkCompilation`, `validate`
-/

namespace Flatsheet.Check

open Text

/-- What a compiler makes of a text. -/
structure CompileOutcome where
  success : Bool := false
  /-- How many milliseconds it took. -/
  duration : Nat := 0
  output : Text := []
deriving DecidableEq, Repr

/-- A compiler that acts on a world `σ`. -/
structure Compiler (σ : Type) where
  available : σ → Bool × σ
  /-- An outcome, or the message with which the compiler broke down. -/
  compile : Text → σ → Except Text CompileOutcome × σ

/-- The verdict on a style sheet. -/
structure Validation where
  issues : List Issue := []
  /-- What the compiler made of the text, if it was asked. -/
  compilation : Option CompileOutcome := none
  remaining : Remaining := {}
deriving DecidableEq, Repr

namespace Validation

/-- The issues that make the sheet invalid. -/
def errors (v : Validation) : List Issue := v.issues.filter (·.isError)

/-- The issues that do not. -/
def warnings (v : Validation) : List Issue := v.issues.filter fun i => !i.isError

/-- There is no error, and the compiler has not refused the sheet. -/
def isValid (v : Validation) : Bool :=
  v.errors.isEmpty && v.compilation.all (·.success)

/-- All braces pair up. -/
def balancedBraces (v : Validation) : Bool := v.issues.all (·.kind ≠ .unbalancedBraces)

/-- The note about constructs that are left over. -/
def remainingNotes (v : Validation) : List Note :=
  if v.remaining.any then
    [⟨.warning, "scss".toList, "validation".toList,
      "unconverted preprocessor syntax remains: ".toList ++ Text.ofNat v.remaining.vars.length
        ++ " variables, ".toList ++ Text.ofNat v.remaining.mixins.length ++ " mixins, ".toList
        ++ Text.ofNat v.remaining.helpers.length ++ " helpers".toList⟩]
  else []

end Validation

/-- The verdict of the syntactic checks. -/
def checkSyntax (t : Text) : Validation × List Note :=
  let v : Validation := { issues := syntaxIssues t, remaining := .of t }
  (v, v.remainingNotes ++ v.issues.map Issue.note)

/-- The first line of a compiler's output that is not blank, trimmed. -/
def firstLine (output : Text) : Text :=
  (((lines output).map trim).find? fun l => !l.isEmpty).getD []

/-- A note about a compilation. -/
def compileNote (severity : Severity) (message : Text) : Note :=
  ⟨severity, "scss".toList, "compile".toList, message⟩

/-- The verdict with the compiler's part added, or the message of its breakdown. Without an available
compiler the verdict stays as it is. -/
def checkCompilation {σ : Type} (compiler : Compiler σ) (t : Text) (v : Validation) (world : σ) :
    Except Text (Validation × List Note) × σ :=
  match compiler.available world with
  | (false, world) =>
    (.ok (v, [compileNote .info "compiler not available; compilation check skipped".toList]), world)
  | (true, world) =>
    match compiler.compile t world with
    | (.error message, world) => (.error message, world)
    | (.ok outcome, world) =>
      let v := { v with compilation := some outcome }
      if outcome.success then
        (.ok (v, [compileNote .debug
          ("compiled in ".toList ++ Text.ofNat outcome.duration ++ " ms".toList)]), world)
      else
        let first := firstLine outcome.output
        let issue : Issue := ⟨.compilationFailed, "Compilation failed".toList, none, some first⟩
        (.ok ({ v with issues := v.issues ++ [issue] },
          [compileNote .error ("compilation failed: ".toList ++ first)]), world)

/-- The verdict on a text: the syntactic checks, and the compiler's part if there is a compiler. -/
def validate {σ : Type} (compiler : Option (Compiler σ)) (t : Text) (world : σ) :
    Except Text (Validation × List Note) × σ :=
  let (v, notes) := checkSyntax t
  match compiler with
  | none => (.ok (v, notes), world)
  | some c =>
    match checkCompilation c t v world with
    | (.ok (v, more), world) => (.ok (v, notes ++ more), world)
    | (.error message, world) => (.error message, world)

end Flatsheet.Check
