import Flatsheet.System.Path

/-!
# `Flatsheet.System.FileTree` — the files that a run reads and writes

A tree maps locations to files and directories. All reading and writing of the library goes through the
operations below, so what a run does to the files is a function of the tree.

## Contents

* `Location`, `Node`, `FileTree` with its view `at?`
* finding: `locate`, `node?`, `isFile`, `isDirectory`, `names`
* `read`: the content of a file
* `makeDirectories`, `create`, `rename`, `remove`: the changes, each of which can fail
* `writeFileOn`, `writeFile`: a file appears with its whole content or not at all
-/

namespace Flatsheet

open Text

/-- The components of the way from the root to a file or directory. -/
abbrev Location := List Text

/-- What there is at a location. -/
inductive Node
  | file (content : Text) (executable : Bool)
  | directory
deriving DecidableEq, Repr

/-- Files and directories by location, and the directory in which relative paths start. The root is
always a directory. -/
structure FileTree where
  entries : List (Location × Node) := []
  home : Location := []
deriving Repr

/-- Why an operation on files fails. -/
inductive FileError
  | notFound
  | notADirectory
  | isADirectory
  | notEmpty
  | busy
  | denied
  /-- There is something already. -/
  | taken
  | nameTooLong
  | tooManyLinks
deriving DecidableEq, Repr

/-- The text of a failure. -/
def FileError.message : FileError → Text
  | notFound => "No such file or directory".toList
  | notADirectory => "Not a directory".toList
  | isADirectory => "Is a directory".toList
  | notEmpty => "Directory not empty".toList
  | busy => "Device or resource busy".toList
  | denied => "Permission denied".toList
  | taken => "File exists".toList
  | nameTooLong => "File name too long".toList
  | tooManyLinks => "Too many levels of symbolic links".toList

namespace FileTree

/-! ## The map from locations -/

/-- What there is at a location. -/
def at? (t : FileTree) (l : Location) : Option Node :=
  if l.isEmpty then some .directory else t.entries.lookup l

/-- The tree with something put at a location. -/
def put (t : FileTree) (l : Location) (n : Node) : FileTree :=
  { t with entries := (l, n) :: t.entries.filter (·.1 ≠ l) }

/-- The tree without what there was at a location. -/
def erase (t : FileTree) (l : Location) : FileTree :=
  { t with entries := t.entries.filter (·.1 ≠ l) }

theorem lookup_filter_ne {l m : Location} (h : m ≠ l) (es : List (Location × Node)) :
    (es.filter (·.1 ≠ l)).lookup m = es.lookup m := by
  induction es with
  | nil => rfl
  | cons e es ih =>
    obtain ⟨k, n⟩ := e
    by_cases hk : k = l
    · have hm : (m == k) = false := beq_eq_false_iff_ne.2 (hk ▸ h)
      simp only [List.filter_cons, ne_eq, hk, not_true_eq_false, decide_false, Bool.false_eq_true,
        if_false, List.lookup_cons, hk ▸ hm, ih]
    · simp only [List.filter_cons, ne_eq, hk, not_false_eq_true, decide_true, if_true,
        List.lookup_cons, ih]

theorem lookup_filter_self (l : Location) (es : List (Location × Node)) :
    (es.filter (·.1 ≠ l)).lookup l = none := by
  induction es with
  | nil => rfl
  | cons e es ih =>
    obtain ⟨k, n⟩ := e
    by_cases hk : k = l
    · simp only [List.filter_cons, ne_eq, hk, not_true_eq_false, decide_false, Bool.false_eq_true,
        if_false, ih]
    · have hm : (l == k) = false := beq_eq_false_iff_ne.2 (Ne.symm hk)
      simp only [List.filter_cons, ne_eq, hk, not_false_eq_true, decide_true, if_true,
        List.lookup_cons, hm, ih]

/-- What is put at a location is there, and everything else stays. -/
theorem at?_put (t : FileTree) {l : Location} (n : Node) (m : Location) (h : l ≠ []) :
    (t.put l n).at? m = if m = l then some n else t.at? m := by
  unfold at? put
  by_cases hm : m = l
  · subst hm; simp [h]
  · have hne : (m == l) = false := by simpa using hm
    simp only [List.lookup_cons, hne, hm, if_false]
    rw [lookup_filter_ne hm]

/-- What is erased is gone, and everything else stays. -/
theorem at?_erase (t : FileTree) {l : Location} (m : Location) (h : l ≠ []) :
    (t.erase l).at? m = if m = l then none else t.at? m := by
  unfold at? erase
  by_cases hm : m = l
  · subst hm
    rw [lookup_filter_self]
    simp [h]
  · simp only [hm, if_false]
    rw [lookup_filter_ne hm]

/-! ## Finding -/

/-- One step of following a path. -/
def follow (l : Location) (component : Text) : Location :=
  if component = ['.', '.'] then l.dropLast else l ++ [component]

/-- The location at which paths start. -/
def start (t : FileTree) (path : Text) : Location := if Path.isAbsolute path then [] else t.home

/-- The number of bytes that a component can have. -/
def longestName : Nat := 255

/-- Follows components from a location. Each directory on the way has to exist. -/
def walk (t : FileTree) (l : Location) : List Text → Except FileError Location
  | [] => .ok l
  | c :: cs =>
    match t.at? l with
    | none => .error .notFound
    | some (.file ..) => .error .notADirectory
    | some .directory => if longestName < c.length then .error .nameTooLong else t.walk (follow l c) cs

/-- The number of bytes that a path can have. -/
def longestPath : Nat := 4095

/-- The location that a path leads to, where there need not be anything. The empty path leads nowhere. -/
def locate (t : FileTree) (path : Text) : Except FileError Location :=
  let path := Path.visible path
  if path.isEmpty then .error .notFound
  else if longestPath < path.length then .error .nameTooLong
  else t.walk (t.start path) (Path.components path)

/-- What a path leads to. A path that can only be a directory does not lead to a file. -/
def node? (t : FileTree) (path : Text) : Option Node :=
  match t.locate path with
  | .error _ => none
  | .ok l =>
    match t.at? l with
    | some (.file content executable) =>
      if Path.mustBeDirectory path then none else some (.file content executable)
    | other => other

/-- The path leads to something. -/
def present (t : FileTree) (path : Text) : Bool := (t.node? path).isSome

/-- The path leads to a file. -/
def isFile (t : FileTree) (path : Text) : Bool := t.node? path matches some (.file ..)

/-- The path leads to a directory. -/
def isDirectory (t : FileTree) (path : Text) : Bool := t.node? path matches some .directory

/-- The path leads to a file that may be run as a program. -/
def isExecutable (t : FileTree) (path : Text) : Bool := t.node? path matches some (.file _ true)

/-- The location is a directory. -/
def directoryAt (t : FileTree) (l : Location) : Bool := t.at? l matches some .directory

/-- The location is a file. -/
def fileAt (t : FileTree) (l : Location) : Bool := t.at? l matches some (.file ..)

/-- Nothing lies in a directory. -/
def isEmptyAt (t : FileTree) (l : Location) : Bool :=
  t.entries.all fun e => e.1.isEmpty || e.1.dropLast ≠ l

/-- The names in a directory, in byte order. -/
def names (t : FileTree) (l : Location) : List Text :=
  (t.entries.filterMap fun e => if e.1.dropLast = l then e.1.getLast? else none).mergeSort inOrder

/-! ## Reading -/

/-- Why a file cannot be read. -/
inductive ReadError
  | cannotOpen (path : Text)
deriving DecidableEq, Repr

/-- The text of a failure. -/
def ReadError.message : ReadError → Text
  | cannotOpen path => "cannot open ".toList ++ path

/-- The content of a file. A directory reads as empty. -/
def read (t : FileTree) (path : Text) : Except ReadError Text :=
  match t.node? path with
  | none => .error (.cannotOpen path)
  | some .directory => .ok []
  | some (.file content _) => .ok content

/-! ## Changing -/

/-- The non-empty beginnings of a location, shortest first. -/
def beginnings (l : Location) : List Location :=
  (List.range l.length).map fun n => l.take (n + 1)

/-- The number of directories that are missing on the way along components from a location. -/
def missingAlong (t : FileTree) (l : Location) : List Text → Nat
  | [] => 0
  | c :: cs =>
    match t.at? (follow l c) with
    | none => ((c :: cs).filter (· ≠ ['.', '.'])).length
    | some _ => t.missingAlong (follow l c) cs

/-- Makes the directories that are missing on the way along components from a location, as far as that is
possible. A file on the way is in the way; what is said about it depends on whether something has been
made before. -/
def makeAlong (t : FileTree) (made : Bool) (l : Location) :
    List Text → Except FileError Unit × FileTree
  | [] => (.ok (), t)
  | c :: cs =>
    match t.at? (follow l c) with
    | some .directory => t.makeAlong made (follow l c) cs
    | some (.file ..) => (.error (if made then .taken else .notADirectory), t)
    | none =>
      if longestName < c.length then (.error .nameTooLong, t)
      else (t.put (follow l c) .directory).makeAlong true (follow l c) cs

/-- How many directories are made at once at most. -/
def mostDirectories : Nat := 1000

/-- Makes a directory and those on the way to it, as far as that is possible. -/
def makeDirectories (t : FileTree) (path : Text) : Except FileError Unit × FileTree :=
  let path := Path.visible path
  let components := Path.components path
  if path.isEmpty then (.error .notFound, t)
  else if longestPath < path.length || mostDirectories < t.missingAlong (t.start path) components then
    (.error .nameTooLong, t)
  else t.makeAlong false (t.start path) components

/-- Opens a file for writing from its beginning, in a directory that exists. -/
def create (t : FileTree) (path content : Text) : Except FileError FileTree := do
  let l ← t.locate path
  if Path.mustBeDirectory path || t.directoryAt l then .error .isADirectory
  else
    let executable := match t.at? l with
      | some (.file _ x) => x
      | _ => false
    .ok (t.put l (.file content executable))

/-- Gives a file another name, in a directory that exists. A file of that name is replaced. -/
def rename (t : FileTree) (source dest : Text) : Except FileError FileTree := do
  let l ← t.locate source
  let m ← t.locate dest
  let name := Path.fileName (Path.visible dest)
  if name = ['.'] || name = ['.', '.'] || m.isEmpty then .error .busy
  else match t.at? l with
    | none => .error .notFound
    | some n =>
      if name.isEmpty then .error .notADirectory
      else if t.directoryAt m then .error .isADirectory
      else .ok ((t.erase l).put m n)

/-- A file may be run as a program from now on, or no longer. -/
def setExecutable (t : FileTree) (path : Text) (executable : Bool) : FileTree :=
  match t.locate path with
  | .error _ => t
  | .ok l =>
    match t.at? l with
    | some (.file content _) => t.put l (.file content executable)
    | _ => t

/-- Removes a file or an empty directory. That there is nothing to remove is no failure. -/
def remove (t : FileTree) (path : Text) : Except FileError FileTree :=
  match t.locate path with
  | .error .notFound => .ok t
  | .error cause => .error cause
  | .ok l =>
    match t.at? l with
    | none => .ok t
    | some (.file ..) =>
      if Path.mustBeDirectory path then .error .notADirectory else .ok (t.erase l)
    | some .directory =>
      if l.isEmpty then .error .busy
      else if t.isEmptyAt l then .ok (t.erase l)
      else .error .notEmpty

/-- Removes what a path leads to, with everything in it. -/
def removeAll (t : FileTree) (path : Text) : FileTree :=
  match t.locate path with
  | .error _ => t
  | .ok l => { t with entries := t.entries.filter fun e => l.isEmpty || !l.isPrefixOf e.1 }

/-- The tree after an attempt to remove something. -/
def removed (t : FileTree) (path : Text) : FileTree := (t.remove path).toOption.getD t

/-! ## Writing whole files -/

/-- Why a file cannot be written. -/
inductive WriteError
  | cannotMake (directory : Text) (cause : FileError)
  | cannotOpen (temporary : Text)
  | cannotWrite (temporary : Text)
  | cannotRename (temporary path : Text) (cause : FileError)
deriving DecidableEq, Repr

/-- The text of a failure. -/
def WriteError.message : WriteError → Text
  | cannotMake directory cause =>
    "cannot create ".toList ++ directory ++ ": ".toList ++ cause.message
  | cannotOpen temporary => "cannot open ".toList ++ temporary ++ " for writing".toList
  | cannotWrite temporary => "write failed for ".toList ++ temporary
  | cannotRename temporary path cause =>
    "rename ".toList ++ temporary ++ " -> ".toList ++ path ++ " failed: ".toList ++ cause.message

/-- The name under which a file is written before it gets its own. -/
def temporaryName (path : Text) : Text := path ++ ".tmp".toList

/-- The tree with the directory of a file, as far as it can be made. -/
def withParent (t : FileTree) (path : Text) : Except FileError Unit × FileTree :=
  if (Path.parent path).isEmpty then (.ok (), t) else t.makeDirectories (Path.parent path)

/-- What a disk does with a content that is written to it. -/
inductive Storage
  /-- All of it arrives. -/
  | whole
  /-- The disk refuses to go on when this has arrived. -/
  | refused (part : Text)
deriving DecidableEq, Repr

/-- What has arrived of a content. -/
def Storage.arrived (content : Text) : Storage → Text
  | whole => content
  | refused part => part

/-- Writes a file on a disk that may refuse. The content is first written under a temporary name beside the file, in
a directory that is made if need be; then the file takes its own name at once. -/
def writeFileOn (storage : Storage) (t : FileTree) (path content : Text) : Except WriteError Unit × FileTree :=
  let temporary := temporaryName path
  match t.withParent path with
  | (.error cause, t) => (.error (.cannotMake (Path.parent path) cause), t)
  | (.ok (), t) =>
    match t.create temporary (storage.arrived content) with
    | .error _ => (.error (.cannotOpen temporary), t)
    | .ok t =>
      match storage with
      | .refused _ => (.error (.cannotWrite temporary), t.removed temporary)
      | .whole =>
        match t.rename temporary path with
        | .error cause => (.error (.cannotRename temporary path cause), t.removed temporary)
        | .ok t => (.ok (), t)

/-- Writes a file on a disk that has room for it. -/
def writeFile (t : FileTree) (path content : Text) : Except WriteError Unit × FileTree :=
  t.writeFileOn .whole path content

end FileTree

end Flatsheet
