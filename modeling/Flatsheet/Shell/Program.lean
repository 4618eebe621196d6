import Flatsheet.Shell.Utility

/-!
# `Flatsheet.Shell.Program` — what the file of a program starts

A file is a program that every machine has, a script that names its interpreter in its first line, or
anything else, which shells run as a script of theirs.

## Contents

* `Call`: a name and arguments
* `interpreter?`: the interpreter in the first line of a script
* `start`, `startAmong`, `startFrom`: the program that a file or a call starts
* `executable?`: the file that a shell finds for a name
-/

namespace Flatsheet.Shell

open Text

/-- A program is called by a name, with arguments. -/
structure Call where
  name : Text
  arguments : List Text
deriving Repr

/-! ## Interpreters -/

/-- So many bytes at the front of a file say what it is. -/
def leadLength : Nat := 256

/-- The interpreter that the first line names, and its argument, which is the rest of the line. Blanks at
the end of the line do not count, unless the file ends there. A line that is too long is no name. -/
def interpreter? (content : Text) : Option (Text × Option Text) :=
  if !startsWith content "#!".toList then none
  else
    let lead := (content.take leadLength).drop 2
    let line := lead.takeWhile fun c => c ≠ '\n' && c ≠ '\x00'
    let ended := lead[line.length]? = some '\n'
    let cut := line.length + 2 = leadLength
    let line :=
      if ended then (line.reverse.dropWhile isSpaceOrTab).reverse else line.take (leadLength - 3)
    let line := line.dropWhile isSpaceOrTab
    let program := line.takeWhile fun c => !isSpaceOrTab c
    let rest := line.drop program.length
    if (ended && program.isEmpty) || (cut && rest.isEmpty) then none
    else some (program, if rest.isEmpty then none else some (rest.dropWhile isSpaceOrTab))

/-- How many files can be asked for one program. -/
def interpreterLimit : Nat := 6

/-- Where a path leads that an interpreter is named by. The empty one leads to the current directory. -/
def interpreterPath (program : Text) : Text := if program.isEmpty then ['.'] else program

/-- The program that a file starts, by its name among those that every machine has, and how it is called;
nothing if the file, or one that interprets it, is no program. -/
def load (t : FileTree) : Nat → Text → Call → Except FileError (Option (Text × Call))
  | 0, _, _ => .error .tooManyLinks
  | n + 1, path, call => do
    let l ← t.locate path
    match t.at? l with
    | none => .error .notFound
    | some .directory => .error .denied
    | some (.file content executable) =>
      if Path.mustBeDirectory path then .error .notADirectory
      else if !executable then .error .denied
      else match Utility.nameAt? l, interpreter? content with
        | some name, _ => .ok (some (name, call))
        | none, none => .ok none
        | none, some (program, option) =>
          load t n (interpreterPath program) ⟨program, option.toList ++ path :: call.arguments⟩

/-- The path of the shell that runs files that are no programs. -/
def shellPath : Text := "/bin/sh".toList

/-- The program that a file starts, and how it is called. -/
def start (t : FileTree) (path : Text) (call : Call) : Except FileError (Text × Call) :=
  (load t interpreterLimit path call).map fun
    | some program => program
    | none => ("sh".toList, ⟨shellPath, path :: call.arguments⟩)

/-! ## Searching -/

/-- The failure means that there is nothing at a path. -/
def isAbsence (e : FileError) : Bool := e = .notFound || e = .notADirectory

/-- The program that the first usable file among some paths starts. Some failures end the search; of the
others the last one counts that is more than an absence. -/
def startAmong (t : FileTree) (call : Call) (ends : FileError → Bool) (cause : FileError) :
    List Text → Except FileError (Text × Call)
  | [] => .error cause
  | path :: rest =>
    match start t path call with
    | .ok p => .ok p
    | .error e =>
      if ends e then .error e
      else startAmong t call ends (if isAbsence e && !isAbsence cause then cause else e) rest

/-- The program that a call starts from a machine itself. -/
def startFrom (m : Machine) (call : Call) : Except FileError (Text × Call) :=
  if call.name.contains '/' then start m.tree call.name call
  else if FileTree.longestName < call.name.length then .error .notFound
  else startAmong m.tree call (· = .tooManyLinks) .notFound (m.places call.name)

/-- The first file among some paths that can be run, or why there is none. -/
def executable? (t : FileTree) (cause : FileError) : List Text → Except FileError Text
  | [] => .error cause
  | path :: rest =>
    match t.locate path with
    | .error e => executable? t (if isAbsence e then cause else e) rest
    | .ok l =>
      match t.at? l with
      | none => executable? t cause rest
      | some (.file _ true) =>
        if Path.mustBeDirectory path then executable? t cause rest else .ok path
      | some _ => executable? t .denied rest

end Flatsheet.Shell
