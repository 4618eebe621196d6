import Flatsheet.Text.Basic

/-!
# `Flatsheet.Repair.Alteration` — the record of what repairs have changed

## Contents

* `Edit`: one changed or inserted line of a file
* `Alteration`: an edit with its file
* `Report`: all alterations, grouped by file when printed
-/

namespace Flatsheet.Repair

open Text

/-- One changed line, or, if `former` is empty, one inserted line. Lines count from one. -/
structure Edit where
  line : Nat
  former : Text
  replacement : Text
  reason : Text
deriving DecidableEq, Repr

/-- An edit of a file. -/
structure Alteration where
  file : Text
  edit : Edit
deriving DecidableEq, Repr

/-- An alteration in a few words, `file:line reason`. -/
def Alteration.describe (a : Alteration) : Text :=
  a.file ++ ":".toList ++ Text.ofNat a.edit.line ++ " ".toList ++ a.edit.reason

/-- An alteration as lines of a report. -/
def Alteration.format (a : Alteration) : Text :=
  "  line ".toList ++ Text.ofNat a.edit.line ++ ": ".toList ++ a.edit.reason ++ "\n".toList
    ++ (if a.edit.former.isEmpty then []
        else "    - ".toList ++ trim a.edit.former ++ "\n".toList)
    ++ "    + ".toList ++ trim a.edit.replacement ++ "\n".toList

/-- All alterations, in the order in which they were made. -/
abbrev Report := List Alteration

namespace Report

/-- The names of the altered files, each once, in byte order. -/
def files (r : Report) : List Text :=
  (r.map (·.file)).eraseDups.mergeSort inOrder

/-- The alterations of one file, in order. -/
def ofFile (r : Report) (file : Text) : List Alteration := r.filter (·.file = file)

/-- The report for reading, one block for each file. -/
def format (r : Report) : Text :=
  if r.isEmpty then "no alterations\n".toList
  else r.files.flatMap fun f =>
    f ++ " (".toList ++ Text.ofNat (r.ofFile f).length ++ " alterations)\n".toList
      ++ (r.ofFile f).flatMap Alteration.format

end Report

end Flatsheet.Repair
