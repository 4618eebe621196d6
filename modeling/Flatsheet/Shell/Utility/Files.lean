import Flatsheet.Shell.Utility.Basic

/-!
# `Flatsheet.Shell.Utility.Files` — utilities that change the tree of files

## Contents

* `FileTree.graft`, `FileTree.prune`: copies and removals of whole branches
* `mkdir`, `rmdir`, `touch`, `chmod`
* `rm`, `cp`, `mv`, `ls`
-/

namespace Flatsheet

/-! ## Branches of the tree -/

/-- What lies at a location or below it is put at another one too. -/
def FileTree.graft (t : FileTree) (l m : Location) : FileTree :=
  (t.entries.filter fun e => l.isPrefixOf e.1).foldr
    (fun e t => match t.at? (m ++ e.1.drop l.length) with
      | some (.file _ x) => t.put (m ++ e.1.drop l.length) (match e.2 with
        | .file content _ => .file content x
        | .directory => .directory)
      | some .directory => t
      | none => t.put (m ++ e.1.drop l.length) e.2) t

/-- What lies at a location or below it is removed. -/
def FileTree.prune (t : FileTree) (l : Location) : FileTree :=
  { t with entries := t.entries.filter fun e => !l.isPrefixOf e.1 }

end Flatsheet

namespace Flatsheet.Shell.Utility

open Text

/-! ## Directories -/

/-- The last part of a path is that one. -/
def endsWithPart (path part : Text) : Bool :=
  Path.fileName (path.reverse.dropWhile (· = '/')).reverse = part

/-- The beginnings of a path that end in front of slashes and a component, and the path itself. -/
def pathBeginnings (path : Text) : List Text :=
  ((List.range path.length).filterMap fun n =>
    let before := path.take n
    let behind := path.drop n
    if before.getLast?.any (· ≠ '/') && behind.head? = some '/' && behind.any (· ≠ '/')
      && !endsWithPart before ['.'] then some before
    else none) ++ [path]

/-- Makes a directory where there is none. -/
def makeDirectory (t : FileTree) (path : Text) : Except FileError FileTree := do
  let l ← t.locate path
  match t.at? l with
  | some _ => .error .taken
  | none => if endsWithPart path ['.'] then .error .notFound else .ok (t.put l .directory)

/-- A directory cannot be made. -/
def refuseDirectory (shown : Text) (cause : FileError) : Action Unit :=
  say ("cannot create directory ".toList ++ plainlyQuoted shown ++ ": ".toList ++ cause.message)

/-- Makes a directory with a message, or says why not. -/
def makeOne (verbose : Bool) (shown path : Text) : Action Bool := do
  match makeDirectory (← get).world.tree path with
  | .ok t =>
    changeTree fun _ => t
    if verbose then
      put ((← get).name ++ ": created directory ".toList ++ quotedName shown ++ ['\n'])
    return true
  | .error cause =>
    refuseDirectory shown cause
    return false

/-- Makes directories one inside of the other, as far as they are missing. -/
def makeChain (verbose : Bool) : List Text → Action Unit
  | [] => return ()
  | path :: rest => do
    let t := (← get).world.tree
    if t.isDirectory path then makeChain verbose rest
    else if t.isFile path && !rest.isEmpty then refuseDirectory path .notADirectory
    else if ← makeOne verbose path path then makeChain verbose rest

/-- `mkdir`. -/
def mkdir (as : List Text) : Action Unit := do
  let (os, paths) ← readArguments
    { letters := "pvm:Z", words := [("parents", 'p'), ("verbose", 'v'), ("mode", 'm')] } as
  let on (c : Char) : Bool := os.any fun o => o.1 = c
  if paths.isEmpty then refuse 1 "missing operand".toList
  for path in paths do
    if on 'p' && !path.isEmpty then makeChain (on 'v') (pathBeginnings path)
    else
      let _ ← makeOne (on 'v') path path

/-- Removes an empty directory. -/
def removeDirectory (t : FileTree) (path : Text) : Except FileError FileTree := do
  let l ← t.locate path
  match t.at? l with
  | none => .error .notFound
  | some (.file ..) => .error .notADirectory
  | some .directory => if t.isEmptyAt l then .ok (t.erase l) else .error .notEmpty

/-- `rmdir`. -/
def rmdir (as : List Text) : Action Unit := do
  let (os, paths) ← readArguments
    { letters := "pv"
      words := [("parents", 'p'), ("verbose", 'v'), ("ignore-fail-on-non-empty", 'i')] } as
  let on (c : Char) : Bool := os.any fun o => o.1 = c
  if paths.isEmpty then refuse 1 "missing operand".toList
  for path in paths do
    for p in if on 'p' then (pathBeginnings path).reverse else [path] do
      if on 'v' then put ((← get).name ++ ": removing directory, ".toList ++ quotedName p ++ ['\n'])
      let t := (← get).world.tree
      if endsWithPart p ['.'] && t.isDirectory p then
        say ("failed to remove ".toList ++ quotedName p ++ ": Invalid argument".toList)
        break
      match removeDirectory t p with
      | .error cause =>
        if !(on 'i' && cause = .notEmpty) then sayOf "failed to remove " p cause
        break
      | .ok after => changeTree fun _ => after

/-! ## Files -/

/-- Makes an empty file unless there is something. -/
def touchFile (makes : Bool) (t : FileTree) (path : Text) : Except FileError FileTree := do
  let l ← t.locate path
  match t.at? l with
  | some (.file ..) => if Path.mustBeDirectory path then .error .notADirectory else .ok t
  | some .directory => .ok t
  | none => if !makes || Path.mustBeDirectory path then .error .notFound else t.create path []

/-- `touch`. -/
def touch (as : List Text) : Action Unit := do
  let (os, paths) ← readArguments
    { letters := "acd:fhmr:t:", words := [("no-create", 'c'), ("date", 'd'), ("reference", 'r')] } as
  if paths.isEmpty then refuse 1 "missing file operand".toList
  for path in paths.filter (· ≠ ['-']) do
    let makes := os.all fun o => o.1 ≠ 'c'
    match touchFile makes (← get).world.tree path with
    | .ok t => changeTree fun _ => t
    | .error cause =>
      -- A path that ends with a slash behind an existing directory is not opened, only looked at.
      let looked := Path.mustBeDirectory path && ((← get).world.tree.locate path).toOption.isSome
      if makes && !looked then sayOf "cannot touch " path cause
      else if makes || cause ≠ .notFound then sayOf "setting times of " path cause

/-- What a part of a mode such as `u+x` makes of the permission to run a file. -/
def modeStep (executable : Bool) (part : Text) : Option Bool :=
  let who := part.takeWhile fun c => "ugoa".toList.contains c
  let all := who.isEmpty || who.contains 'a' || ['u', 'g', 'o'].all who.contains
  match part.drop who.length with
  | sign :: letters =>
    if !"+-=".toList.contains sign || !letters.all "rwxXst".toList.contains then none
    else
      let runs := letters.contains 'x' || (letters.contains 'X' && executable)
      some (if sign = '+' then executable || runs
        else if sign = '-' then executable && !(runs && all)
        else runs || (executable && !all))
  | [] => none

/-- Whether a file can be run after a mode has been set. -/
def modeAfter? (mode : Text) (executable : Bool) : Option Bool :=
  if mode.all (isDigitTo 8) && !mode.isEmpty then some ((mode.reverse.take 3).any fun c => c.toNat % 2 = 1)
  else (splitOn ',' mode).foldlM modeStep executable

/-- `chmod`. -/
def chmod (as : List Text) : Action Unit := do
  let isMode (a : Text) : Bool := a.head? = some '-' && 1 < a.length && (modeAfter? a true).isSome
  let (os, rest) ← readArguments
    { letters := "Rcfv", words := [("recursive", 'R'), ("verbose", 'v')] }
    (as.filter fun a => !isMode a)
  let modes := as.filter isMode
  let rest := if modes.isEmpty then rest else List.intercalate [','] modes :: rest
  match rest with
  | [] => refuse 1 "missing operand".toList
  | [mode] =>
    refuse 1 (if !modes.isEmpty then "missing operand".toList
      else "missing operand after ".toList ++ plainlyQuoted mode)
  | mode :: paths =>
    if (modeAfter? mode true).isNone then refuse 1 ("invalid mode: ".toList ++ plainlyQuoted mode)
    for path in paths do
      match ← findNode path with
      | .error cause => sayOf "cannot access " path cause
      | .ok .directory =>
        if os.any fun o => o.1 = 'R' then
          let l := ((← get).world.tree.locate path).toOption.getD []
          changeTree fun t => { t with entries := t.entries.map fun e => match e.2 with
            | .file content x =>
              if l.isPrefixOf e.1 then (e.1, .file content ((modeAfter? mode x).getD x)) else e
            | .directory => e }
      | .ok (.file _ x) => changeTree fun t => t.setExecutable path ((modeAfter? mode x).getD x)

/-- Removes what lies below a location, with messages. -/
def listBelow (t : FileTree) (l : Location) (path : Text) : Nat → List (Text × Bool)
  | 0 => []
  | n + 1 =>
    if t.directoryAt l then
      (t.names l).flatMap (fun name => listBelow t (l ++ [name]) (Path.join path name) n) ++ [(path, true)]
    else [(path, false)]

/-- `rm`. -/
def rm (as : List Text) : Action Unit := do
  let (os, paths) ← readArguments
    { letters := "dfirRvI"
      words := [("recursive", 'r'), ("force", 'f'), ("verbose", 'v'), ("dir", 'd')] } as
  let on (c : Char) : Bool := os.any fun o => o.1 = c
  let recursive := on 'r' || on 'R'
  if paths.isEmpty && !on 'f' then refuse 1 "missing operand".toList
  for path in paths do
    let t := (← get).world.tree
    let failure := sayOf "cannot remove " path
    match ← findNode path with
    | .error cause =>
      if !(on 'f' && (cause = .notFound || cause = .notADirectory)) then failure cause
    | .ok node =>
      let l := (t.locate path).toOption.getD []
      let name := Path.fileName (path.reverse.dropWhile (· = '/')).reverse
      if node = .directory && !recursive && !on 'd' then failure .isADirectory
      else if l.isEmpty then
        say "it is dangerous to operate recursively on '/'".toList
        say "use --no-preserve-root to override this failsafe".toList
      else if node = .directory && (name = ['.'] || name = ['.', '.']) then
        say ("refusing to remove '.' or '..' directory: skipping ".toList ++ quotedName path)
      else if node = .directory && !recursive && !t.isEmptyAt l then failure .notEmpty
      else
        let gone := listBelow t l path (t.entries.length + 1)
        changeTree fun t => t.prune l
        if on 'v' then
          gone.forM fun (p, isDirectory) => put
            ((if isDirectory then "removed directory " else "removed ").toList ++ quotedName p ++ ['\n'])

/-! ## Copies -/

/-- The path of something in a directory, under the name that it has now. -/
def inDirectory (directory path : Text) : Text :=
  Path.join directory (Path.fileName (path.reverse.dropWhile (· = '/')).reverse)

/-- The operands of a utility that copies: what is copied, and where to, with whether that is a directory
into which it is put. -/
def copyOperands (os : List (Char × Text)) (as : List Text) : Action (List Text × Text × Bool) := do
  let t := (← get).world.tree
  let targets := (os.filter fun o => o.1 = 't').map (·.2)
  if 1 < targets.length then stop 1 "multiple target directories specified".toList
  match targets, as.reverse with
  | _, [] => refuse 1 "missing file operand".toList
  | target :: _, _ =>
    if os.any fun o => o.1 = 'T' then
      stop 1 "cannot combine --target-directory (-t) and --no-target-directory (-T)".toList
    match ← findNode target with
    | .ok .directory => return (as, target, true)
    | .ok _ => stop 1 ("target directory ".toList ++ quotedName target ++ ": Not a directory".toList)
    | .error cause =>
      stop 1 ("target directory ".toList ++ quotedName target ++ ": ".toList ++ cause.message)
  | [], [a] => refuse 1 ("missing destination file operand after ".toList ++ quotedName a)
  | [], target :: before =>
    let alone := os.any fun o => o.1 = 'T'
    let into := t.isDirectory target && !alone
    if alone && 1 < before.length then
      refuse 1 ("extra operand ".toList ++ quotedName (as[2]?.getD []))
    if !into && 1 < before.length then
      match ← findNode target with
      | .error cause => stop 1 ("target ".toList ++ quotedName target ++ ": ".toList ++ cause.message)
      | .ok _ => stop 1 ("target ".toList ++ quotedName target ++ ": Not a directory".toList)
    return (before.reverse, target, into)

/-- Copies a file or, if asked for, a directory. -/
def copyOne (recursive verbose : Bool) (source dest : Text) : Action Unit := do
  let t := (← get).world.tree
  let done : Action Unit := do
    if verbose then put (quotedName source ++ " -> ".toList ++ quotedName dest ++ ['\n'])
  let copyBranch (l m : Location) : Action Unit := do
    if l.isPrefixOf m then
      say ("cannot copy a directory, ".toList ++ quotedName source ++ ", into itself, ".toList
        ++ quotedName dest)
    else
      changeTree fun t => t.graft l m
      done
  match ← findNode source with
  | .error cause => sayOf "cannot stat " source cause
  | .ok node =>
    let l := (t.locate source).toOption.getD []
    let m? := t.locate dest
    let there := match m? with
      | .ok m => t.at? m
      | .error _ => none
    match node, there, m? with
    | .directory, _, _ =>
      if !recursive then
        say ("-r not specified; omitting directory ".toList ++ quotedName source)
      else match there, m? with
        | some .directory, .ok m =>
          if l = m then
            say (quotedName source ++ " and ".toList ++ quotedName dest ++ " are the same file".toList)
          else copyBranch l m
        | some (.file ..), _ =>
          say ("cannot overwrite non-directory ".toList ++ quotedName dest ++ " with directory ".toList
            ++ quotedName source)
        | _, .error cause =>
          if cause = .notADirectory then sayOf "cannot stat " dest cause
          else sayOf "cannot create directory " dest cause
        | _, .ok m => copyBranch l m
    | .file content x, _, .ok m =>
      if l = m then
        say (quotedName source ++ " and ".toList ++ quotedName dest ++ " are the same file".toList)
      else match there with
        | some .directory =>
          say ("cannot overwrite directory ".toList ++ quotedName dest ++ " with non-directory".toList)
        | some (.file _ y) =>
          if Path.mustBeDirectory dest then sayOf "cannot stat " dest .notADirectory
          else
            changeTree fun t => t.put m (.file content y)
            done
        | none =>
          if Path.mustBeDirectory dest then sayOf "cannot create regular file " dest .notADirectory
          else
            changeTree fun t => t.put m (.file content x)
            done
    | .file .., _, .error cause =>
      if cause = .notADirectory then sayOf "cannot stat " dest cause
      else sayOf "cannot create regular file " dest cause

/-- The words that stand for options of utilities that copy. -/
def copyWords : List (String × Char) :=
  [("recursive", 'r'), ("force", 'f'), ("verbose", 'v'), ("archive", 'a'), ("target-directory", 't'),
    ("no-target-directory", 'T'), ("no-clobber", 'n'), ("update", 'u')]

/-- The option says that nothing that exists is written over, and there is something. -/
def keepsExisting (os : List (Char × Text)) (dest : Text) : Action Bool := do
  return (os.any fun o => o.1 = 'n') && (← get).world.tree.present dest

/-- `cp`. -/
def cp (as : List Text) : Action Unit := do
  let (os, as) ← readArguments { letters := "rRafpvnidLPHt:TubslxZ", words := copyWords } as
  let recursive := os.any fun o => "rRa".toList.contains o.1
  let (sources, target, into) ← copyOperands os as
  let status := (← get).status
  if os.any fun o => o.1 = 'n' then
    say ("warning: behavior of -n is non-portable and may change in future; "
      ++ "use --update=none instead").toList
    setStatus status
  for source in sources do
    let dest := if into then inDirectory target source else target
    if !(← keepsExisting os dest) then
      copyOne recursive (os.any fun o => o.1 = 'v') source dest

/-- Moves a file or directory. -/
def moveOne (verbose : Bool) (source dest : Text) : Action Unit := do
  let t := (← get).world.tree
  let failure (cause : FileError) : Action Unit :=
    say ("cannot move ".toList ++ quotedName source ++ " to ".toList ++ quotedName dest
      ++ ": ".toList ++ cause.message)
  match ← findNode source with
  | .error cause => sayOf "cannot stat " source cause
  | .ok node =>
    match t.locate source, t.locate dest with
    | .ok l, .ok m =>
      let there := t.at? m
      if l = m then
        say (quotedName source ++ " and ".toList ++ quotedName dest ++ " are the same file".toList)
      else if (there matches some (.file ..)) && Path.mustBeDirectory dest then
        sayOf "cannot stat " dest .notADirectory
      else if node = .directory && (there matches some (.file ..)) then
        say ("cannot overwrite non-directory ".toList ++ quotedName dest ++ " with directory ".toList
          ++ quotedName source)
      else if node ≠ .directory && there = some .directory then
        say ("cannot overwrite directory ".toList ++ quotedName dest ++ " with non-directory".toList)
      else if node ≠ .directory && Path.mustBeDirectory dest then failure .notADirectory
      else if endsWithPart source ['.'] || endsWithPart source ['.', '.'] then failure .busy
      else if l.isPrefixOf m then
        say ("cannot move ".toList ++ quotedName source ++ " to a subdirectory of itself, ".toList
          ++ quotedName dest)
      else if there = some .directory && !t.isEmptyAt m then failure .notEmpty
      else
        changeTree fun t => (t.prune m).graft l m |>.prune l
        if verbose then
          put ("renamed ".toList ++ quotedName source ++ " -> ".toList ++ quotedName dest ++ ['\n'])
    | _, .error cause => if cause = .notADirectory then sayOf "cannot stat " dest cause else failure cause
    | .error cause, _ => failure cause

/-- `mv`. -/
def mv (as : List Text) : Action Unit := do
  let (os, as) ← readArguments { letters := "fivnt:TubZ", words := copyWords } as
  let (sources, target, into) ← copyOperands os as
  for source in sources do
    let dest := if into then inDirectory target source else target
    if ← keepsExisting os dest then say ("not replacing ".toList ++ quotedName dest)
    else moveOne (os.any fun o => o.1 = 'v') source dest

/-! ## Lists of files -/

/-- `ls`. -/
def ls (as : List Text) : Action Unit := do
  let (os, paths) ← readArguments
    { letters := "aA1dFRrtlhSpC", words := [("all", 'a'), ("almost-all", 'A'), ("directory", 'd')]
      failure := 2 } as
  let on (c : Char) : Bool := os.any fun o => o.1 = c
  let t := (← get).world.tree
  let marked (shown : Text) (l : Location) : Text :=
    let mark : Text := match t.at? l with
      | some .directory => if on 'F' || on 'p' then ['/'] else []
      | some (.file _ true) => if on 'F' then ['*'] else []
      | _ => []
    shown ++ mark ++ ['\n']
  let ordered (ts : List Text) : List Text :=
    let sorted := ts.mergeSort inOrder
    if on 'r' then sorted.reverse else sorted
  let mut found : List Text := []
  for path in if paths.isEmpty then [['.']] else paths do
    match ← findNode path with
    | .error cause =>
      sayOf "cannot access " path cause
      setStatus 2
    | .ok _ => found := found ++ [path]
  let status := (← get).status
  let single (path : Text) : Bool := on 'd' || !t.isDirectory path
  let placeOf (path : Text) : Location := (t.locate path).toOption.getD []
  let files := ordered (found.filter single)
  let directories := ordered (found.filter fun p => !single p)
  putOr 2 (files.flatMap fun p => marked p (placeOf p))
  let titled := 1 < paths.length
  let mut first := files.isEmpty
  for p in directories do
    let own := (t.names (placeOf p)).filter fun n => on 'a' || on 'A' || n.head? ≠ some '.'
    let shows := (os.filter fun o => o.1 = 'a' || o.1 = 'A').getLast?.any (·.1 = 'a')
    let dots : List Text := if shows then [['.'], ['.', '.']] else []
    let title := (if first then [] else ['\n']) ++ if titled then p ++ ":\n".toList else []
    putOr 2 (title ++ (ordered (dots ++ own)).flatMap fun n =>
      marked n (if n = ['.'] then placeOf p else FileTree.follow (placeOf p) n))
    first := false
  setStatus status

end Flatsheet.Shell.Utility
