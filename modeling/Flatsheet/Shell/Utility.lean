import Flatsheet.Shell.Condition
import Flatsheet.Shell.Utility.Files
import Flatsheet.Shell.Utility.Output

/-!
# `Flatsheet.Shell.Utility` — the programs that every machine has

## Contents

* `Utility.find?`: the utility of a name, if it runs no other program
* `Utility.names`, `Utility.nameAt?`: the utilities and where they are
-/

namespace Flatsheet.Shell.Utility

open Text

/-- `printf`. -/
def printf (as : List Text) : Action Unit := do
  match if as.head? = some ['-', '-'] then as.tail else as with
  | [] => refuse 1 "missing operand".toList
  | format :: as =>
    let p := printed format as
    p.messages.forM say
    let status := (← get).status
    put p.output
    setStatus (if p.failed then 1 else status)

/-- `test`. -/
def test (as : List Text) : Action Unit := do
  match Condition.holds (← get).world.tree as with
  | .ok holds => setStatus (if holds then 0 else 1)
  | .error (.message m) => stop 2 m

/-- `test` with a bracket behind its arguments. -/
def bracket (as : List Text) : Action Unit :=
  if as.getLast? = some [']'] then test as.dropLast else stop 2 "missing ']'".toList

/-- The utilities that run no other program. -/
def table : List (String × (List Text → Action Unit)) :=
  [("[", bracket), ("basename", basename), ("cat", cat), ("chmod", chmod), ("cp", cp),
    ("dirname", dirname), ("echo", echo), ("false", fun _ => setStatus 1), ("head", head), ("ls", ls),
    ("mkdir", mkdir), ("mv", mv), ("printf", printf), ("pwd", pwd), ("rm", rm), ("rmdir", rmdir),
    ("seq", seq), ("sleep", sleep), ("tail", tail), ("tee", tee), ("test", test), ("touch", touch),
    ("true", fun _ => setStatus 0), ("wc", wc)]

/-- The utility of a name. -/
def find? (name : Text) : Option (List Text → Action Unit) := table.lookup (String.ofList name)

/-- The names of shells. -/
def shells : List Text := ["sh", "dash"].map String.toList

/-- The name of the program that starts another one in an environment. -/
def environmentName : Text := "env".toList

/-- The names of all programs that every machine has. -/
def names : List Text := environmentName :: shells ++ table.map fun u => u.1.toList

/-- The directories in which they are. -/
def directories : List Location := [["bin".toList], ["usr".toList, "bin".toList]]

/-- The name of the program at a location, if it is one of them. -/
def nameAt? (l : Location) : Option Text :=
  if directories.contains l.dropLast then l.getLast?.filter names.contains else none

end Flatsheet.Shell.Utility
