import Flatsheet.Shell.Builtin.Input
import Flatsheet.Shell.Builtin.Job
import Flatsheet.Shell.Builtin.Variables

/-!
# `Flatsheet.Shell.Builtin` — what a shell does by itself

## Contents

* `Builtin.find?`: the builtin of a name, if it runs no commands
* `Builtin.isKnown`: there is a builtin of a name
-/

namespace Flatsheet.Shell.Builtin

open Text

/-! ## Commands by name -/

/-- The builtins that do not run commands. -/
def find? (name : Text) : Option (List Text → Action Unit) :=
  match String.ofList name with
  | ":" => some fun _ => setStatus 0
  | "true" => some fun _ => setStatus 0
  | "false" => some fun _ => setStatus 1
  | "[" => some bracket
  | "alias" => some defineAliases
  | "bg" => some resume
  | "break" => some breakLoop
  | "cd" => some changeDirectory
  | "chdir" => some changeDirectory
  | "continue" => some continueLoop
  | "echo" => some echo
  | "exit" => some exit
  | "export" => some exportNames
  | "fg" => some resume
  | "getopts" => some nextOption
  | "jobs" => some listJobs
  | "kill" => some kill
  | "local" => some localNames
  | "printf" => some printf
  | "pwd" => some printDirectory
  | "read" => some readLine
  | "readonly" => some protect
  | "return" => some returnFrom
  | "set" => some setOptions
  | "shift" => some shift
  | "test" => some test
  | "times" => some fun _ => output "0m0.000000s 0m0.000000s\n0m0.000000s 0m0.000000s\n".toList
  | "trap" => some setTraps
  | "ulimit" => some fun _ => output "unlimited\n".toList
  | "umask" => some setMask
  | "unalias" => some removeAliases
  | "unset" => some unset
  | "wait" => some wait
  | _ => none

/-- The builtins that run commands or look for them. -/
def running : List Text := [".", "command", "eval", "exec", "hash", "type"].map String.toList

/-- There is a builtin of that name. -/
def isKnown (name : Text) : Bool := (find? name).isSome || running.contains name

end Flatsheet.Shell.Builtin
