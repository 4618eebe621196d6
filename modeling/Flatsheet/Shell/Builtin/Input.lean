import Flatsheet.Shell.Builtin.Basic

/-!
# `Flatsheet.Shell.Builtin.Input` — builtins for directories and input

## Contents

* `changeDirectory`, `printDirectory`, `setMask`
* `readLine`, `nextOption`: input, line by line or option by option
-/

namespace Flatsheet.Shell.Builtin

open Text

/-! ## Directories -/

/-- The path of the current directory. -/
def currentPath (s : Session) : Text := '/' :: List.intercalate ['/'] s.world.tree.home

/-- The directory at a path becomes the current one, if it is one. -/
def enter (path : Text) : Action Bool := do
  let s ← get
  match s.world.tree.locate path with
  | .ok l =>
    if s.world.tree.directoryAt l then
      let before := currentPath s
      set { s with world := s.world.setTree { s.world.tree with home := l } }
      modify fun s =>
        let s := (s.setValue "OLDPWD".toList before).setValue "PWD".toList (currentPath s)
        { s with vars := s.vars.map fun v =>
          if v.1 = "OLDPWD".toList || v.1 = "PWD".toList then (v.1, { v.2 with exported := true })
          else v }
      return true
    else return false
  | .error _ => return false

/-- The first directory of a list in which there is one of a name is entered. -/
def enterAmong (dest : Text) : List Text → Action (Option Bool)
  | [] => return none
  | d :: ds => do
    let path := if d.isEmpty then dest else Path.join d dest
    if (← get).world.tree.isDirectory path then
      if ← enter path then return some (!d.isEmpty) else return none
    else enterAmong dest ds

/-- `cd`. -/
def changeDirectory (as : List Text) : Action Unit := do
  let (_, as) ← options "LP" as
  let s ← get
  let back := as.head? = some ['-']
  let dest := match as with
    | [] => s.value "HOME".toList
    | a :: _ => if back then s.value "OLDPWD".toList else a
  let start := dest.takeWhile (· ≠ '/')
  let direct := Path.isAbsolute dest || start = ['.'] || start = ['.', '.']
  let target := if dest.isEmpty then ['.'] else dest
  let found ←
    if direct then pure none
    else enterAmong target (splitOn ':' (s.value "CDPATH".toList))
  let print ← match found with
    | some shown => pure (some shown)
    | none => if ← enter dest then pure (some false) else pure none
  match print with
  | none => fail ("can't cd to ".toList ++ dest)
  | some shown =>
    setStatus 0
    if shown || back then output (currentPath (← get) ++ ['\n'])

/-- `pwd`. -/
def printDirectory (as : List Text) : Action Unit := do
  let _ ← options "LP" as
  output (currentPath (← get) ++ ['\n'])

/-- The permissions that a mask takes away, as letters for those who keep them. -/
def maskLetters (mask : Nat) : Text :=
  let kept (shift : Nat) : Text :=
    let bits := 7 - mask / Nat.pow 2 shift % 8
    (if bits / 4 % 2 = 1 then ['r'] else []) ++ (if bits / 2 % 2 = 1 then ['w'] else [])
      ++ (if bits % 2 = 1 then ['x'] else [])
  "u=".toList ++ kept 6 ++ ",g=".toList ++ kept 3 ++ ",o=".toList ++ kept 0

/-- The mask after a change in letters, which takes away or gives permissions. -/
def maskAfter? (mask : Nat) (t : Text) : Option Nat :=
  (splitOn ',' t).foldlM (fun mask part =>
    let who := part.takeWhile fun c => "ugoa".toList.contains c
    let places : List Nat := if who.isEmpty || who.contains 'a' then [6, 3, 0]
      else (if who.contains 'u' then [6] else []) ++ (if who.contains 'g' then [3] else [])
        ++ (if who.contains 'o' then [0] else [])
    match part.drop who.length with
    | sign :: ps =>
      if !"=+-".toList.contains sign || !ps.all "rwxXst".toList.contains then none
      else
        let bits := (if ps.contains 'r' then 4 else 0) + (if ps.contains 'w' then 2 else 0)
          + (if ps.contains 'x' then 1 else 0)
        some (places.foldl (fun mask shift =>
          let old := mask / Nat.pow 2 shift % 8
          let new := if sign = '=' then 7 - bits else if sign = '+' then old &&& (7 - bits)
            else old ||| bits
          mask - old * Nat.pow 2 shift + new * Nat.pow 2 shift) mask)
    | [] => none) mask

/-- `umask`. -/
def setMask (as : List Text) : Action Unit := do
  let (os, as) ← options "S" as
  let s ← get
  match as with
  | [] =>
    if os.isEmpty then
      let digits := Nat.toDigits 8 s.mask
      output (List.replicate (4 - digits.length) '0' ++ digits ++ ['\n'])
    else output (maskLetters s.mask ++ ['\n'])
  | a :: _ =>
    if a.head?.any Char.isDigit then
      if !a.all (isDigitTo 8) then fail ("Illegal number: ".toList ++ a)
      else set { s with mask := valueTo 8 a % 512, status := 0 }
    else match maskAfter? s.mask a with
      | some mask => set { s with mask, status := 0 }
      | none => fail ("Illegal mode: ".toList ++ a)

/-! ## Input -/

/-- The stretches of a line that has been read, and whether it goes on in the next line. A backslash
makes the byte behind it stand for itself, unless the line is `raw`. -/
def lineStretches (raw : Bool) : Text → List Stretch × Bool
  | [] => ([], false)
  | ['\\'] => if raw then ([⟨[some ('\\', false)], .free⟩], false) else ([], false)
  | c :: d :: r =>
    if c = '\\' && !raw then
      if d = '\n' then ([], true)
      else
        let (ss, more) := lineStretches raw r
        (⟨[some (d, true)], .never⟩ :: ss, more)
    else
      let (ss, more) := lineStretches raw (d :: r)
      match ss with
      | ⟨gs, .free⟩ :: ss => (⟨some (c, false) :: gs, .free⟩ :: ss, more)
      | _ => (⟨[some (c, false)], .free⟩ :: ss, more)
  | [c] => if c = '\n' then ([], false) else ([⟨[some (c, false)], .free⟩], false)

/-- Lines up to one that does not go on in the next one: their stretches, and whether there was an end of
a line; nothing if the channel cannot be read. -/
def readStretches (raw : Bool) : Nat → Action (Option (List Stretch × Bool))
  | 0 => return some ([], false)
  | n + 1 => do
    match ← takeInput 0 World.readLine? with
    | none => return none
    | some line =>
      let line := line.filter (· ≠ '\x00')
      let (ss, more) := lineStretches raw line
      if more then
        match ← readStretches raw n with
        | some (rest, ended) => return some (ss ++ rest, ended)
        | none => return none
      else return some (ss, line.getLast? = some '\n')

/-- `read`. -/
def readLine (as : List Text) : Action Unit := do
  let (os, names) ← options "p:r" as
  if names.isEmpty then fail "arg count".toList
  else
    match ← readStretches (os.any fun o => o.1 = 'r') 1000 with
    | none => setStatus 1
    | some (ss, ended) =>
      let s ← get
      let values := (fields s.separators (some names.length) ss).map textOf
      let pairs := names.zip (values ++ List.replicate names.length [])
      pairs.forM fun (name, value) => assign name value
      setStatus (if ended then 0 else 1)

/-- `getopts`: the next option among arguments, its argument, and where to go on. -/
def nextOption (as : List Text) : Action Unit := do
  match as with
  | spec :: name :: rest =>
    let s ← get
    let words := if rest.isEmpty then s.arguments else rest
    let index := (digits? (s.value "OPTIND".toList)).getD 1
    let place := if s.optionIndex = index then s.optionPlace else 0
    let quiet := spec.head? = some ':'
    let finish (index place : Nat) (option : Text) (argument : Option Text) (status : Nat) :
        Action Unit := do
      modify fun s => { s with optionPlace := place, optionIndex := index }
      match argument with
      | some t => assign "OPTARG".toList t
      | none => modify fun s => s.putVariable "OPTARG".toList none
      assign "OPTIND".toList (ofNat index)
      modify fun s => { s with optionIndex := index }
      assign name option
      setStatus status
    let current := words[index - 1]?
    match current with
    | none => finish index 0 ['?'] none 1
    | some word =>
      let begins := place = 0
      if begins && (word.head? ≠ some '-' || word = ['-']) then finish index 0 ['?'] none 1
      else if begins && word = ['-', '-'] then finish (index + 1) 0 ['?'] none 1
      else
        let place := if begins then 1 else place
        let c := (word[place]?).getD '?'
        let (after, next) := if place + 1 < word.length then (index, place + 1) else (index + 1, 0)
        let behind := (spec.dropWhile (· ≠ c)).tail
        if c = ':' || !spec.contains c then
          if !quiet then
            let _ ← write 2 ("Illegal option -".toList ++ [c, '\n'])
          finish after next ['?'] (if quiet then some [c] else none) 0
        else if behind.head? = some ':' then
          let attached := word.drop (place + 1)
          if !attached.isEmpty then finish (index + 1) 0 [c] (some attached) 0
          else match words[index]? with
            | some argument => finish (index + 2) 0 [c] (some argument) 0
            | none =>
              if quiet then finish (index + 1) 0 [':'] (some [c]) 0
              else do
                let _ ← write 2 ("No arg for -".toList ++ c :: " option\n".toList)
                finish (index + 1) 0 ['?'] none 0
        else finish after next [c] (some []) 0
  | _ => fail "Usage: getopts optstring var [arg]".toList

end Flatsheet.Shell.Builtin
