import Flatsheet.CommandLine

/-!
# `Flatsheet.Main` — the program

The files at which a command looks are loaded into a tree, the command is carried out on it, and what has
changed in the tree is written back. Programs are not among the loaded files, so the formatter and the
compiler count as missing.

## Contents

* `loadTree`, `saveTree`: between the tree and the disk
* `main`
-/

namespace Flatsheet.Main

/-- The bytes of a string. -/
def ofString (s : String) : Text := s.toUTF8.toList.map fun b => Char.ofNat b.toNat

/-- The bytes of a text. -/
def bytesOf (t : Text) : ByteArray := ⟨(t.map fun c => c.toNat.toUInt8).toArray⟩

/-- The string of a text, empty if the text does not encode one. -/
def stringOf (t : Text) : String := (String.fromUTF8? (bytesOf t)).getD ""

/-- The absolute path of a location. -/
def pathOf (l : Location) : String := stringOf ('/' :: List.intercalate ['/'] l)

/-- The tree with what there is on the disk at a location. -/
def loadLocation (t : FileTree) (l : Location) : IO FileTree := do
  if (t.at? l).isSome || t.fileAt l.dropLast then return t
  try
    let content ← IO.FS.readBinFile (pathOf l)
    return t.put l (.file (content.toList.map fun b => Char.ofNat b.toNat) false)
  catch
    | .inappropriateType .. => return t.put l .directory
    | _ => return t

/-- The tree of what there is on the disk at paths and on the way to them. -/
def loadTree (home : Location) (paths : List Text) : IO FileTree := do
  let t : FileTree := { home }
  let locations := home :: paths.map fun p => (Path.components p).foldl FileTree.follow (t.start p)
  (locations.flatMap FileTree.beginnings).foldlM loadLocation t

/-- Writes to the disk what has become of a location. -/
def saveLocation (before after : FileTree) (l : Location) : IO Unit := do
  if before.at? l = after.at? l then return
  match after.at? l with
  | some .directory => IO.FS.createDirAll (pathOf l)
  | some (.file content _) =>
    let temporary := pathOf l ++ ".tmp"
    IO.FS.writeBinFile temporary (bytesOf content)
    IO.FS.rename temporary (pathOf l)
  | none => IO.FS.removeFile (pathOf l)

/-- Writes to the disk what has changed in a tree, directories before what is in them. -/
def saveTree (before after : FileTree) : IO Unit := do
  let locations := ((after.entries ++ before.entries).map (·.1)).mergeSort
    fun a b => decide (a.length ≤ b.length)
  locations.eraseDups.forM (saveLocation before after)

/-- The names of the variables of the environment that matter. -/
def variableNames : List String :=
  ["RESTYLE_THEME_BASE_URL", "RESTYLE_SASS_BINARY", "RESTYLE_FORMATTER", "RESTYLE_LOG_CONTAINER",
    "RESTYLE_CANDIDATE_PREFIX", "RESTYLE_RESOURCE_DIR", "RESTYLE_MAX_RETRIES",
    "RESTYLE_MAX_ESCALATIONS", "RESTYLE_COMPILE_WAIT_S", "RESTYLE_POLL_INTERVAL_S",
    "RESTYLE_CLEANUP_WAIT_S", "RESTYLE_LOG_TAIL_LINES", "RESTYLE_MAX_FILE_SIZE_MB",
    "RESTYLE_PARALLEL_FILES", "RESTYLE_STRICT", "PATH"]

/-- The variables of the environment that matter. -/
def loadEnvironment : IO (List (Text × Text)) :=
  variableNames.filterMapM fun name => do
    return (← IO.getEnv name).map fun value => (name.toList, ofString value)

end Flatsheet.Main

section

open Flatsheet Flatsheet.Main

/-- Carries out the command that the arguments give. -/
def main (arguments : List String) : IO UInt32 := do
  let arguments := arguments.map ofString
  let environment ← loadEnvironment
  let home := Path.components (ofString (← IO.currentDir).toString)
  let tree ← loadTree home (CommandLine.footprint arguments fun name => environment.lookup name)
  let (outcome, machine) := CommandLine.runCommandLine arguments { tree, environment }
  saveTree tree machine.tree
  (← IO.getStdout).write (bytesOf outcome.out)
  (← IO.getStderr).write (bytesOf outcome.err)
  return outcome.status.code.toUInt32

end
