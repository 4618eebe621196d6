import Flatsheet.Shell.Pattern
import Flatsheet.Shell.Session

/-!
# `Flatsheet.Shell.Expansion` — what words stand for

The pieces of a word are replaced by what they stand for; the values among them are split into fields at
separators; and a field that is a pattern of paths is replaced by the paths that match.

## Contents

* `Stretch`, `fields`: splitting
* `expandPieces`: the replacement of pieces
* `expandWords`, `expandText`, `expandPattern`: words as lists of words, as texts and as patterns
-/

namespace Flatsheet.Shell

open Text

/-! ## Splitting -/

/-- A byte, marked if it is quoted, or the border of quotes. -/
abbrev Grain := Option (Char × Bool)

/-- How a stretch of a word is split. -/
inductive Splitting
  | never
  /-- At separators. -/
  | free
  /-- Only between the arguments of the shell. -/
  | between
deriving DecidableEq, Repr

/-- A part of a word that is split in one way. -/
structure Stretch where
  grains : List Grain
  splitting : Splitting
deriving Repr

/-- The byte between two arguments of the shell. -/
def divider : Char := '\x00'

/-- The state of splitting: the finished fields and the bytes of the unfinished one, both latest first. -/
structure Fields where
  finished : List (List Grain) := []
  current : List Grain := []
  /-- A blank separator has just finished a field. -/
  afterBlank : Bool := false
  /-- The last stretch was split between arguments only. -/
  between : Bool := false
  /-- So many fields can still be finished. -/
  left : Option Nat := none
  /-- With none left, the bytes since which nothing but separators has come. -/
  trailing : Option Nat := none

namespace Fields

/-- A blank that separates is skipped with others of its kind. The divider counts as blank. -/
def isBlankSeparator (c : Char) : Bool := c = ' ' || c = '\t' || c = '\n' || c = divider

/-- A byte without a meaning for splitting. -/
def add (f : Fields) (g : Grain) : Fields :=
  { f with current := g :: f.current, trailing := f.trailing.map (· + 1) }

/-- The unfinished field is finished. -/
def finish (f : Fields) (afterBlank : Bool) : Fields :=
  { f with finished := f.current.reverse :: f.finished, current := [], afterBlank
           left := f.left.map (· - 1) }

/-- A byte of a stretch that is split. `separates` says whether it is a separator, `afterBetween` whether
the stretch before was split between arguments only. -/
def take (f : Fields) (separates afterBetween : Bool) (g : Grain) : Fields :=
  let blank := separates && g.any fun b => isBlankSeparator b.1
  if f.left = some 0 then
    -- The last field keeps its separators, except for blanks and one other separator at its end.
    let f' := { f with current := g :: f.current }
    if blank then { f' with trailing := some (f.trailing.getD 0 + 1) }
    else if separates && f.afterBlank then
      { f' with trailing := f.trailing.map (· + 1), afterBlank := false }
    else { f' with trailing := none, afterBlank := false }
  else if f.afterBlank then
    if blank then f
    else if separates then { f with afterBlank := false }
    else { f.add g with afterBlank := false }
  else if separates then
    let skips := blank && !(afterBetween || f.between)
    if f.current.isEmpty && skips then f
    else if f.left = some 1 then
      { f with left := some 0, current := g :: f.current, trailing := some 1, afterBlank := skips }
    else f.finish skips
  else f.add g

/-- A stretch. -/
def stretch (separators : Text) (f : Fields) (s : Stretch) : Fields :=
  match s.splitting with
  | .never => s.grains.foldl add f
  | .free =>
    let g := { f with between := false, afterBlank := false }
    s.grains.foldl (fun g b =>
      g.take (b.any fun b => separators.contains b.1 || b.1 = divider) f.between b) g
  | .between =>
    let g := { f with between := true, afterBlank := false }
    s.grains.foldl (fun g b => g.take (b.any fun b => b.1 = divider) f.between b) g

/-- The fields, first one first. -/
def close (f : Fields) : List (List Grain) :=
  let current := f.current.drop (f.trailing.getD 0)
  (if f.between || !current.isEmpty then current.reverse :: f.finished else f.finished).reverse

end Fields

/-- The fields of stretches, at most so many. -/
def fields (separators : Text) (left : Option Nat) (ss : List Stretch) : List (List Grain) :=
  (ss.foldl (Fields.stretch separators) { left }).close

/-- The text of grains. -/
def textOf (gs : List Grain) : Text := gs.filterMap fun g => g.map (·.1)

/-- The pattern of grains. A backslash that is not quoted quotes the byte behind it. -/
def patternOf : List Grain → Pattern
  | [] => []
  | none :: gs => patternOf gs
  | some ('\\', false) :: some (c, q) :: gs =>
    if q then ('\\', false) :: (c, q) :: patternOf gs else (c, true) :: patternOf gs
  | some b :: gs => b :: patternOf gs

/-- The text of stretches. -/
def stretchesText (ss : List Stretch) : Text := textOf (ss.flatMap (·.grains))

/-! ## Pieces -/

/-- Where a word stands. -/
structure Setting where
  /-- The word is split into fields. -/
  splits : Bool := false
  /-- Bytes that stand for themselves are split as well. -/
  splitsAll : Bool := false
  /-- A tilde in front stands for a home directory. -/
  tilde : Bool := false
  /-- So does one behind a colon. -/
  tildes : Bool := false

/-- A stretch of bytes that are all quoted or not. -/
def stretchOf (quoted : Bool) (splitting : Splitting) (t : Text) : Stretch :=
  ⟨t.map fun c => some (c, quoted), splitting⟩

/-- The user whose home directory a tilde before a word stands for, if it does. -/
def tildeUser? (colons : Bool) (w : Word) : Option Text :=
  let stops (c : Char) : Bool := c = '/' || (colons && c = ':')
  let user := w.takeWhile fun p => (Piece.bare? p).any fun c => !stops c
  match w.drop user.length with
  | [] => some (literal user)
  | p :: _ => if (Piece.bare? p).any stops then some (literal user) else none

/-- The users with their home directories. -/
def homes : List (String × String) :=
  [("root", "/root"), ("daemon", "/usr/sbin"), ("bin", "/bin"), ("nobody", "/nonexistent")]

/-- The home directory of a user; without a name, the one of whoever runs the script. -/
def homeOf? (s : Session) (user : Text) : Option Text :=
  if user.isEmpty then s.value? "HOME".toList
  else (homes.lookup (String.ofList user)).map String.toList

/-- The stretches of bytes that stand for themselves, latest first. -/
def runStretches (st : Setting) (run : List Grain) : List Stretch :=
  let quoted (g : Grain) : Bool := g.all (·.2)
  if run.isEmpty then []
  else if st.splitsAll then
    (run.reverse.splitBy fun a b => quoted a = quoted b).map fun gs =>
      ⟨gs, if gs.head?.any quoted then .never else .free⟩
  else [⟨run.reverse, .never⟩]

/-- The stretch of a value. -/
def valueStretch (st : Setting) (quoted : Bool) (t : Text) : Stretch :=
  stretchOf quoted (if st.splits && !quoted then .free else .never) t

/-- The arguments of the shell as one text, with the first separator between them. -/
def joinedArguments (s : Session) : Text :=
  let between : Text := match s.value? "IFS".toList with
    | none => [' ']
    | some separators => separators.take 1
  List.intercalate between s.arguments

/-- The stretches of the arguments of the shell. -/
def argumentsStretches (s : Session) (st : Setting) (each quoted : Bool) : List Stretch :=
  let divided := List.intercalate [divider] s.arguments
  if s.arguments.isEmpty then if quoted then [] else [valueStretch st false []]
  else if each && quoted && st.splits then [stretchOf true .between divided]
  else if st.splits && !quoted && (s.value? "IFS".toList).isSome then [valueStretch st false divided]
  else [valueStretch st quoted (joinedArguments s)]

/-- All arguments of the shell are meant. -/
def isArguments (name : Text) : Bool := name = ['@'] || name = ['*']

/-- A value without what matches a pattern at one of its ends. Of several arguments, a pattern meets one at
a time: the first one, except that the shortest end is looked for from the last one on. An end takes the
arguments behind it along, and so does a longest beginning that is all of an argument. -/
def cut (p : Pattern) (front longest : Bool) (t : Text) : Text :=
  let first := t.takeWhile (· ≠ divider)
  let several := first.length < t.length
  if front then
    if longest && several && p.matchesText first then []
    else p.cutFront longest first ++ t.drop first.length
  else if !several then p.cutBack longest t
  else if longest then
    let rest := p.cutBack true first
    if rest.length < first.length || p.matchesText [] then rest else t
  else
    match (List.range (t.length + 1)).reverse.find? fun n =>
      p.matchesText ((t.drop n).takeWhile (· ≠ divider)) with
    | some n => t.take n
    | none => t

/-- The letters of the options that are on, in the order in which they are shown. -/
def optionLetters : List Char :=
  ['p', 'u', 'b', 'a', 'C', 'E', 'V', 'v', 'x', 's', 'n', 'm', 'i', 'I', 'f', 'e']

/-- The value of a parameter other than all arguments, if it has one. -/
def parameter? (s : Session) (name : Text) : Option Text :=
  match name with
  | ['#'] => some (ofNat s.arguments.length)
  | ['?'] => some (ofNat s.status)
  | ['$'] => some (ofNat s.root)
  | ['!'] => s.last.map ofNat
  | ['-'] => some (optionLetters.filter s.has)
  | _ =>
    match digits? name with
    | some 0 => some s.name
    | some n => s.arguments[n - 1]?
    | none => s.value? name

/-- The stretches of a parameter, if it has a value. -/
def parameterStretches? (s : Session) (st : Setting) (name : Text) (quoted : Bool) :
    Option (List Stretch) :=
  if isArguments name then some (argumentsStretches s st (name = ['@']) quoted)
  else (parameter? s name).map fun t => [valueStretch st quoted t]

/-- The text without the line ends behind it. -/
def withoutLineEnds (t : Text) : Text := (t.reverse.dropWhile (· = '\n')).reverse

/-- A parameter has no value, though one is needed. The message may be given. -/
def missing {α : Type} (name : Text) (colon : Bool) (message : Option Text) : Action α :=
  fail (name ++ ": ".toList ++
    message.getD ("parameter not set".toList ++ if colon then " or null".toList else []))

/-- Calculates, and makes the assignments of the expression. -/
def evaluate (source : Text) : Action Text := do
  let s ← get
  match calculate s.value s.isReadOnly source with
  | .error e => fail (e.message source)
  | .ok (v, assigned) =>
    assigned.reverse.forM fun (name, v) => assign name (ofInt v)
    return ofInt v

mutual

/-- What a piece stands for. -/
def expandPiece (output : Command → Action Text) (st : Setting) : Piece → Action (List Stretch)
  | .mark => return [⟨[none], .never⟩]
  | .byte c quoted => return [⟨[some (c, quoted)], .never⟩]
  | .calculation source quoted => do
    let t ← evaluate (stretchesText (← expandPieces output {} false 0 [] source))
    return [valueStretch st quoted t]
  | .output script quoted => do
    let t := withoutLineEnds ((← output script).filter (· ≠ '\x00'))
    return [valueStretch st quoted t]
  | .parameter name change colon word quoted => do
    let s ← get
    let found := parameterStretches? s st name quoted
    let present := found.any fun ss => !colon || !(stretchesText ss).isEmpty
    let needed : Action (List Stretch) := match found with
      | some ss => return ss
      | none =>
        if s.has 'u' then missing name false none
        else return if quoted then [] else [valueStretch st quoted []]
    let text : Action Text := return stretchesText (← expandPieces output { tilde := true } true 0 [] word)
    let shorten (front longest : Bool) : Action (List Stretch) := do
      let ss ← needed
      let w ← expandPieces output { tilde := true } true 0 [] word
      let t := cut (patternOf (w.flatMap (·.grains))) front longest (stretchesText ss)
      let splitting := (ss.head?.map (·.splitting)).getD (valueStretch st quoted []).splitting
      return [stretchOf quoted splitting t]
    let instead : Action (List Stretch) :=
      expandPieces output { st with splitsAll := st.splits, tilde := true } true 0 [] word
    match change with
    | .asIs => return (← needed) ++ (← expandPieces output st false 0 [] word)
    | .size => do
      let ss ← needed
      let t := if isArguments name then joinedArguments s else stretchesText ss
      return [valueStretch st quoted (ofNat t.length)]
    | .fallback => if present then needed else instead
    | .alternative => if present then instead else return []
    | .demand =>
      if present then needed
      else if word.isEmpty then missing name colon none
      else missing name colon (some (← text))
    | .assign =>
      if present then needed
      else
        assign name (← text)
        return ((parameterStretches? (← get) st name quoted).getD [])
    | .cutFront longest => shorten true longest
    | .cutBack longest => shorten false longest
    | .unknown => fail "Bad substitution".toList

/-- What pieces stand for, behind a run of bytes. If `armed`, a tilde in front stands for a home
directory. So many pieces are skipped first. -/
def expandPieces (output : Command → Action Text) (st : Setting) (armed : Bool) (skipped : Nat)
    (run : List Grain) : List Piece → Action (List Stretch)
  | [] => return runStretches st run
  | p :: r => do
    if 0 < skipped then expandPieces output st false (skipped - 1) run r
    else match p with
      | .byte c quoted =>
        let s ← get
        let user? := if armed && c = '~' && !quoted then tildeUser? st.tildes r else none
        match user?.bind fun user => (homeOf? s user).map (user, ·) with
        | some (user, home) =>
          expandPieces output st false user.length
            ((home.map fun c => some (c, true)).reverse ++ run) r
        | none =>
          expandPieces output st (st.tildes && c = ':' && !quoted) 0 (some (c, quoted) :: run) r
      | .mark => expandPieces output st false 0 (none :: run) r
      | _ =>
        let first ← expandPiece output st p
        return runStretches st run ++ first ++ (← expandPieces output st false 0 [] r)

end

/-! ## Words -/

/-- A word that stays one word. -/
def expandText (output : Command → Action Text) (w : Word) : Action Text :=
  return stretchesText (← expandPieces output { tilde := true } true 0 [] w)

/-- The value of an assignment. -/
def expandValue (output : Command → Action Text) (w : Word) : Action Text :=
  return stretchesText (← expandPieces output { tilde := true, tildes := true } true 0 [] w)

/-- A document, in which everything is quoted. -/
def expandDocument (output : Command → Action Text) (w : Word) : Action Text :=
  return stretchesText (← expandPieces output {} false 0 [] w)

/-- A pattern. -/
def expandPattern (output : Command → Action Text) (w : Word) : Action Pattern := do
  let ss ← expandPieces output { tilde := true } true 0 [] w
  return patternOf (ss.flatMap (·.grains))

/-- A word that can become several words or none. -/
def expandWord (output : Command → Action Text) (w : Word) : Action (List Text) := do
  let ss ← expandPieces output { splits := true, tilde := true } true 0 [] w
  let s ← get
  return (fields s.separators none ss).flatMap fun gs =>
    if s.has 'f' || !(patternOf gs).isWild then [textOf gs] else wordPaths s gs
where
  /-- The paths that match a field, or its text if there is none. -/
  wordPaths (s : Session) (gs : List Grain) : List Text :=
    let found := (patternOf gs).paths s.world.tree
    if found = [(patternOf gs).toText] then [textOf gs] else found

/-- Words, of which each can become several words or none. -/
def expandWords (output : Command → Action Text) : List Word → Action (List Text)
  | [] => return []
  | w :: ws => do
    let first ← expandWord output w
    return first ++ (← expandWords output ws)

end Flatsheet.Shell
