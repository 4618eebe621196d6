import Flatsheet.System.FileTree

/-!
# `Flatsheet.System.Machine` — files, time and environment

A machine is what programs run on: a tree of files, a clock that moves only when somebody waits, and
the variables of the environment.

## Contents

* `Machine` with `lookup?`
* `Machine.find?`: the program that a name stands for
-/

namespace Flatsheet

open Text

/-- Files, a clock in milliseconds and an environment. -/
structure Machine where
  tree : FileTree := {}
  clock : Int := 0
  environment : List (Text × Text) := []
deriving Repr

namespace Machine

/-- The value of a variable of the environment. -/
def lookup? (m : Machine) (name : Text) : Option Text := m.environment.lookup name

/-- The paths at which a program is looked for: the name itself if it has a slash, and otherwise the name
in each directory of the search path, where an empty entry stands for the current directory. -/
def places (m : Machine) (name : Text) : List Text :=
  if name.isEmpty then []
  else if name.contains '/' then [name]
  else match m.lookup? "PATH".toList with
    | none => []
    | some path =>
      (splitOn ':' path).map fun d => Path.join (if d.isEmpty then ['.'] else d) name

/-- The path of the program that a name stands for. -/
def find? (m : Machine) (name : Text) : Option Text := (m.places name).find? m.tree.isExecutable

end Machine

end Flatsheet
