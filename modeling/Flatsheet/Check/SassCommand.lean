import Flatsheet.Check.Validation
import Flatsheet.Shell.Run

/-!
# `Flatsheet.Check.SassCommand` — a compiler that is a program

The compiler is asked for its version once; whether it answered decides from then on if it is available.
A text is handed over in a temporary file, and the compiler writes its result to another one. Neither is
left behind.

## Contents

* `SassCommand`: the program and its time limit
* `SassSession`: the machine, and what is known about the compiler
* `SassCommand.compiler`
-/

namespace Flatsheet.Check

open Text Shell

/-- The program of a compiler, with its time limit in seconds. -/
structure SassCommand where
  binary : Text
  timeout : Nat
deriving DecidableEq, Repr

/-- A machine, and whether the compiler is known to be available on it. -/
structure SassSession where
  machine : Machine
  available : Option Bool := none

namespace SassCommand

/-- The time within which the compiler has to tell its version, in milliseconds. -/
def probeTimeout : Int := 5000

/-- The file that the compiler reads. -/
def sourceFile : Text := "/tmp/restyle-0.scss".toList

/-- The file that the compiler writes. -/
def resultFile : Text := "/tmp/restyle-1.css".toList

/-- The compiler is available: the program exists and tells its version. -/
def probe (c : SassCommand) (s : SassSession) : Bool × SassSession :=
  match s.available with
  | some known => (known, s)
  | none =>
    if (s.machine.find? c.binary).isNone then (false, { s with available := some false })
    else
      let (result, machine) :=
        runProgram [c.binary, "--version".toList] probeTimeout [] s.machine
      (result.succeeded, { machine, available := some result.succeeded })

/-- What the compiler has to say after a run. -/
def outputOf (c : SassCommand) : ProgramResult → Text
  | .notStarted message => message
  | .timedOut output =>
    output ++ "\ncompiler timed out after ".toList ++ Text.ofNat c.timeout ++ "s".toList
  | .exited _ output => output

/-- Has the compiler compile a text. -/
def compile (c : SassCommand) (t : Text) (s : SassSession) : CompileOutcome × SassSession :=
  match s.machine.tree.writeFile sourceFile t with
  | (.error cause, tree) =>
    ({ output := cause.message }, { s with machine := { s.machine with tree } })
  | (.ok (), tree) =>
    let (result, machine) :=
      runProgram [c.binary, "--no-source-map".toList, sourceFile, resultFile] (1000 * c.timeout) []
        { s.machine with tree }
    let tree := (machine.tree.removed sourceFile).removed resultFile
    (⟨result.succeeded, (machine.clock - s.machine.clock).toNat, c.outputOf result⟩,
      { s with machine := { machine with tree } })

/-- The compiler. It never breaks down. -/
def compiler (c : SassCommand) : Compiler SassSession where
  available := c.probe
  compile := fun t s =>
    let (outcome, s) := c.compile t s
    (.ok outcome, s)

end SassCommand

end Flatsheet.Check
