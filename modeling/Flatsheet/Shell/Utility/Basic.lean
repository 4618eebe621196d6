import Flatsheet.Shell.Format
import Flatsheet.Shell.Session

/-!
# `Flatsheet.Shell.Utility.Basic` — how utilities read arguments and write messages

A utility is a program that runs no other one. It runs in a session of its own, whose name is the one that
it was called by, and starts its messages with that name.

## Contents

* `quotedName`, `shownName`, `plainlyQuoted`: names in messages
* `say`, `refuse`, `put`: messages and output
* `Grammar`, `readArguments`: options among arguments
* `content`: the content of a file or of the input
-/

namespace Flatsheet.Shell.Utility

open Text

/-! ## Names in messages -/

/-- The byte is special in shells, so that a name with it is quoted. -/
def isSpecialByte (c : Char) : Bool := " !\"$&()*;<=>?[\\^\x60|'\t\n".toList.contains c

/-- The byte has no shape. -/
def isShapeless (c : Char) : Bool := c.toNat < 32 || 127 ≤ c.toNat

/-- The escape of a byte without a shape. -/
def escapeOf (c : Char) : Text :=
  match [('\x07', 'a'), ('\x08', 'b'), ('\t', 't'), ('\n', 'n'), ('\x0b', 'v'), ('\x0c', 'f'),
    ('\r', 'r')].lookup c with
  | some letter => ['\\', letter]
  | none =>
    let digits := Nat.toDigits 8 c.toNat
    '\\' :: List.replicate (3 - digits.length) '0' ++ digits

/-- The inside of a name in single quotes. -/
def quotedInside (escaping : Bool) : Text → Text
  | [] => []
  | c :: r =>
    if isShapeless c then (if escaping then [] else "'$'".toList) ++ escapeOf c ++ quotedInside true r
    else (if escaping then ['\'', '\''] else [])
      ++ (if c = '\'' then "'\\''".toList else [c]) ++ quotedInside false r

/-- A name in quotes. A name with a single quote is in double quotes if nothing in it is special there. -/
def quotedName (t : Text) : Text :=
  if t.contains '\'' && t.all (fun c => !isShapeless c && (c = '\'' || c = ' ' || !isSpecialByte c)) then
    '"' :: t ++ ['"']
  else '\'' :: quotedInside false t ++ ['\'']

/-- A text in single quotes with backslashes in front of those inside. -/
def plainlyQuoted (t : Text) : Text :=
  '\'' :: t.flatMap (fun c =>
    if isShapeless c then escapeOf c else if c = '\'' || c = '\\' then ['\\', c] else [c]) ++ ['\'']

/-- A name, in quotes if it needs them. -/
def shownName (t : Text) : Text :=
  if t.isEmpty || t.any (fun c => isSpecialByte c || isShapeless c)
      || t.head?.any (fun c => c = '#' || c = '~') || t = ['\x7b'] || t = ['\x7d'] then quotedName t
  else t

/-! ## Messages and output -/

/-- A message behind the name of the utility, which has failed. -/
def say (message : Text) : Action Unit := do
  let s ← get
  let _ ← write 2 (s.name ++ ": ".toList ++ message ++ ['\n'])
  setStatus 1

/-- The utility stops with a message and a status. -/
def stop {α : Type} (status : Nat) (message : Text) : Action α := do
  say message
  setStatus status
  throw .left

/-- The utility stops because of its arguments. -/
def refuse {α : Type} (status : Nat) (message : Text) : Action α := do
  let s ← get
  stop status (message ++ "\nTry '".toList ++ s.name ++ " --help' for more information.".toList)

/-- A message about a name, with a cause. -/
def sayOf (start : String) (name : Text) (cause : FileError) : Action Unit :=
  say (start.toList ++ quotedName name ++ ": ".toList ++ cause.message)

/-- Writes output, or stops with a status. -/
def putOr (failure : Nat) (t : Text) : Action Unit := do
  if !(← write 1 t) then stop failure "write error: Bad file descriptor".toList

/-- Writes output, or stops. -/
def put (t : Text) : Action Unit := putOr 1 t

/-! ## Arguments -/

/-- The options that a utility knows. -/
structure Grammar where
  /-- The letters. One with a colon behind it takes an argument. -/
  letters : String
  /-- The words that stand for letters. -/
  words : List (String × Char) := []
  /-- No options are looked for behind the first operand. -/
  inOrder : Bool := false
  /-- The status after an unknown option. -/
  failure : Nat := 1

namespace Grammar

/-- The letter takes an argument; nothing if it is unknown. -/
def takesArgument? (g : Grammar) (c : Char) : Option Bool :=
  let behind := g.letters.toList.dropWhile (· ≠ c)
  if c = ':' || behind.isEmpty then none else some (behind.tail.head? = some ':')

end Grammar

/-- Options with their arguments, and operands. -/
abbrev Arguments := List (Char × Text) × List Text

/-- Reads arguments. -/
def readFrom (g : Grammar) : Nat → List Text → Action Arguments
  | 0, as => return ([], as)
  | _ + 1, [] => return ([], [])
  | n + 1, a :: as => do
    let more (c : Char) (t : Text) (as : List Text) : Action Arguments := do
      let (os, rest) ← readFrom g n as
      return ((c, t) :: os, rest)
    match a with
    | ['-', '-'] => return ([], as)
    | '-' :: '-' :: word =>
      let name := word.takeWhile (· ≠ '=')
      match g.words.find? fun w => w.1.toList = name with
      | none => refuse g.failure ("unrecognized option '".toList ++ a ++ ['\''])
      | some (_, c) =>
        if g.takesArgument? c = some true then
          if name.length < word.length then more c (word.drop (name.length + 1)) as
          else match as with
            | b :: bs => more c b bs
            | [] => refuse g.failure ("option '--".toList ++ name ++ "' requires an argument".toList)
        else if name.length < word.length then
          refuse g.failure ("option '--".toList ++ name ++ "' doesn't allow an argument".toList)
        else more c [] as
    | '-' :: c :: r =>
      match g.takesArgument? c, r, as with
      | none, _, _ => refuse g.failure ("invalid option -- '".toList ++ [c, '\''])
      | some true, [], [] =>
        refuse g.failure ("option requires an argument -- '".toList ++ [c, '\''])
      | some true, [], b :: bs => more c b bs
      | some true, _, _ => more c r as
      | some false, [], _ => more c [] as
      | some false, _, _ => more c [] (('-' :: r) :: as)
    | _ =>
      if g.inOrder then return ([], a :: as)
      else
        let (os, rest) ← readFrom g n as
        return (os, a :: rest)

/-- Reads arguments. -/
def readArguments (g : Grammar) (as : List Text) : Action Arguments :=
  readFrom g (as.flatten.length + as.length + 1) as

/-! ## Files -/

/-- What is left of the input, or why it cannot be read. -/
def inputContent : Action (Except Text Text) := do
  match ← takeInput 0 World.readAll? with
  | some t => return .ok t
  | none =>
    let s ← get
    match (s.stream? 0).bind s.world.stream? with
    | some .directory => return .error FileError.isADirectory.message
    | _ => return .error "Bad file descriptor".toList

/-- What there is at a path, or why there is nothing. -/
def findNode (path : Text) : Action (Except FileError Node) := do
  let t := (← get).world.tree
  match t.locate path with
  | .error e => return .error e
  | .ok l =>
    match t.at? l with
    | none => return .error .notFound
    | some (.file content x) =>
      return if Path.mustBeDirectory path then .error .notADirectory else .ok (.file content x)
    | some .directory => return .ok .directory

/-- The content of the file at a path, or the input for a minus sign, or why it cannot be read. -/
def content (path : Text) : Action (Except Text Text) := do
  if path = ['-'] then inputContent
  else match ← findNode path with
    | .ok (.file t _) => return .ok t
    | .ok .directory => return .error FileError.isADirectory.message
    | .error e => return .error e.message

/-- The tree of files changes. -/
def changeTree (f : FileTree → FileTree) : Action Unit := modify fun s =>
  { s with world := s.world.setTree (f s.world.tree) }

end Flatsheet.Shell.Utility
