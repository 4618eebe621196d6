import Flatsheet.Repair.Surroundings
import Flatsheet.Shell.Run

/-!
# `Flatsheet.Repair.Tools` — the log and the restoration of a real theme

The log of the watching compiler is what its container has written, or the content of a file. A directory
is put back by the version control that it is under.

## Contents

* `lastLines`
* `containerLog`, `fileLog`: the two kinds of logs
* `checkout`: putting back a directory
* `machineSurroundings`
-/

namespace Flatsheet.Repair

open Text Shell

/-- At most so many of the last lines. An empty line that a final line feed leaves behind does not
count. -/
def lastLines (count : Nat) (ls : List Text) : List Text :=
  let ls := if ls.getLast? = some [] then ls.dropLast else ls
  ls.drop (ls.length - count)

/-- The last lines of what a container has written. The time limit is in milliseconds. -/
def containerLog (container : Text) (timeout : Int) (count : Nat) (m : Machine) : LogReading × Machine :=
  let (result, m) :=
    runProgram ["docker".toList, "logs".toList, "--tail".toList, Text.ofNat count, container]
      timeout [] m
  (match result with
    | .notStarted message => .unavailable ("docker: ".toList ++ message)
    | .timedOut _ =>
      .unavailable ("docker logs timed out after ".toList ++ Text.ofInt timeout ++ " ms".toList)
    | .exited 0 output => .lines (lastLines count (lines output))
    | .exited code output =>
      .unavailable ("docker logs exited with ".toList ++ Text.ofNat code ++ ": ".toList
        ++ trim output), m)

/-- The last lines of a file. A file that does not exist has no lines. -/
def fileLog (path : Text) (count : Nat) (t : FileTree) : LogReading :=
  if t.present path then
    match t.read path with
    | .ok content => .lines (lastLines count (lines content))
    | .error cause => .unavailable cause.message
  else .lines []

/-- Puts a directory back into the state that version control knows. -/
def checkout (directory : Text) (timeout : Int) (m : Machine) : Reversion × Machine :=
  let (result, m) :=
    runProgram ["git".toList, "-C".toList, directory, "checkout".toList, "--".toList, ".".toList]
      timeout [] m
  (match result with
    | .notStarted message => .failed ("git: ".toList ++ message)
    | .timedOut _ => .failed "git checkout timed out".toList
    | .exited 0 _ => .done
    | .exited code output =>
      .failed ("git checkout exited with ".toList ++ Text.ofNat code ++ ": ".toList ++ trim output),
    m)

/-- The time limit for reading the log of a container, in milliseconds. -/
def logTimeout : Int := 10000

/-- The time limit for putting back a directory, in milliseconds. -/
def checkoutTimeout : Int := 30000

/-- The dealings with a machine on which the compiler runs in a container. Nobody cancels. -/
def machineSurroundings (container : Text) : Surroundings Machine where
  tree := Machine.tree
  setTree := fun tree m => { m with tree }
  tail := containerLog container logTimeout
  now := Machine.clock
  sleep := fun milliseconds m => { m with clock := m.clock + milliseconds }
  isCancelled := fun m => (false, m)
  revert := fun directory => checkout directory checkoutTimeout

end Flatsheet.Repair
