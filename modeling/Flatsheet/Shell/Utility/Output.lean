import Flatsheet.Shell.Utility.Basic

/-!
# `Flatsheet.Shell.Utility.Output` — utilities that write what they find

## Contents

* `cat`, `head`, `tail`, `wc`, `tee`: the content of files
* `echo`, `basename`, `dirname`, `seq`, `pwd`: their arguments
* `sleep`
-/

namespace Flatsheet.Shell.Utility

open Text

/-! ## Whole files -/

/-- How `cat` shows lines. -/
structure Display where
  /-- Lines are numbered. -/
  numbers : Bool := false
  /-- Empty lines are not. -/
  onlyFilled : Bool := false
  /-- Line ends are marked. -/
  ends : Bool := false
  tabs : Bool := false
  /-- Bytes without a shape are shown by letters. -/
  shapes : Bool := false
  /-- Of several empty lines one is shown. -/
  squeezes : Bool := false

/-- What `cat` knows from the files before: the number of lines, and the number of line ends just
written, which is one at the beginning. -/
structure DisplayState where
  number : Nat := 0
  breaks : Nat := 1

/-- A byte, other than a line end and a tab, by letters. -/
def shape (c : Char) : Text :=
  let low (n : Nat) : Text :=
    if n < 32 then ['^', Char.ofNat (n + 64)] else if n = 127 then ['^', '?'] else [Char.ofNat n]
  if c.toNat < 128 then low c.toNat else 'M' :: '-' :: low (c.toNat - 128)

/-- A text as it is shown. -/
def Display.show (d : Display) : DisplayState → Text → Text × DisplayState
  | s, [] => ([], s)
  | s, c :: r =>
    let empty := c = '\n' && 0 < s.breaks
    if d.squeezes && empty && 2 ≤ s.breaks then d.show s r
    else
      let numbered := d.numbers && 0 < s.breaks && !(d.onlyFilled && empty)
      let number := if numbered then s.number + 1 else s.number
      let digits := ofNat number
      let label : Text :=
        if numbered then List.replicate (6 - digits.length) ' ' ++ digits ++ ['\t'] else []
      let shown : Text :=
        if c = '\n' then (if d.ends then ['$', '\n'] else ['\n'])
        else if c = '\t' then (if d.tabs then ['^', 'I'] else ['\t'])
        else if d.shapes then shape c
        else [c]
      let (rest, s) := d.show ⟨number, if c = '\n' then s.breaks + 1 else 0⟩ r
      (label ++ shown ++ rest, s)

/-- Writes for `cat`. -/
def putPlain (t : Text) : Action Unit := do
  if ((← get).stream? 1).isNone || !(← write 1 t) then stop 1 "standard output: Bad file descriptor".toList

/-- Shows the input as it comes. -/
def showInput (d : Display) : Nat → DisplayState → Action DisplayState
  | 0, s => return s
  | n + 1, s => do
    match ← takeInput 0 World.readSome? with
    | none =>
      match ← inputContent with
      | .error cause => say ("-: ".toList ++ cause)
      | .ok _ => pure ()
      return s
    | some [] => return s
    | some t =>
      let (shown, s) := d.show s t
      putPlain shown
      showInput d n s

/-- How many pieces of input are read at most. -/
def pieceLimit : Nat := 1000000

/-- `cat`. -/
def cat (as : List Text) : Action Unit := do
  let (os, paths) ← readArguments
    { letters := "nbEsTetuvA"
      words := [("number", 'n'), ("number-nonblank", 'b'), ("show-ends", 'E'), ("squeeze-blank", 's'),
        ("show-tabs", 'T'), ("show-nonprinting", 'v'), ("show-all", 'A')] } as
  let on (cs : String) : Bool := os.any fun o => cs.toList.contains o.1
  let d : Display := ⟨on "nb", on "b", on "EeA", on "TtA", on "veAt", on "s"⟩
  let mut s : DisplayState := {}
  putPlain []
  for path in if paths.isEmpty then [['-']] else paths do
    if path = ['-'] then s ← showInput d pieceLimit s
    else
      match ← content path with
      | .ok t =>
        let (shown, next) := d.show s t
        putPlain shown
        s := next
      | .error cause => say (shownName path ++ ": ".toList ++ cause)
  let closed := (← get).stream? 0 = none
  if closed && (paths.isEmpty || paths.contains ['-']) then
    say "closing standard input: Bad file descriptor".toList

/-- The lines of a text with their ends. -/
def linesWithEnds (t : Text) : List Text :=
  let whole := (lines t).dropLast.map (· ++ ['\n'])
  match (lines t).getLast? with
  | some [] => whole
  | some l => whole ++ [l]
  | none => whole

/-- A number that says how much to show, with its sign. -/
def amount (what : String) (t : Text) : Action (Option Char × Nat) := do
  let (sign, digits) : Option Char × Text := match t with
    | '-' :: r => (some '-', r)
    | '+' :: r => (some '+', r)
    | _ => (none, t)
  match digits? digits with
  | some n => return (sign, n)
  | none => stop 1 ("invalid number of ".toList ++ what.toList ++ ": ".toList ++ plainlyQuoted t)

/-- The old way to ask for a number of lines, which stands in front. -/
def withOldNumber (as : List Text) : List Text :=
  match as with
  | ('-' :: r) :: rest =>
    if !r.isEmpty && r.all Char.isDigit then "-n".toList :: r :: rest else as
  | _ => as

/-- What is said about an old number anywhere else. -/
def refuseOldNumber (os : List (Char × Text)) (message : Char → Action Unit) : Action Unit :=
  match os.find? fun o => o.1.isDigit with
  | some (c, _) => message c
  | none => return ()

/-- Shows parts of files, with their names if there are several. -/
def showParts (part : Text → Text) (names : Option Bool) (paths : List Text) : Action Unit := do
  let named := names.getD (1 < paths.length)
  let mut first := true
  for path in if paths.isEmpty then [['-']] else paths do
    let title := if path = ['-'] then "standard input".toList else path
    let heading := (if first then [] else ['\n']) ++ "==> ".toList ++ title ++ " <==\n".toList
    match ← content path with
    | .ok t =>
      put ((if named then heading else []) ++ part t)
      first := false
    | .error cause =>
      let shown := quotedName title
      if cause = FileError.isADirectory.message then
        if named then
          put heading
          first := false
        say ("error reading ".toList ++ shown ++ ": ".toList ++ cause)
      else say ("cannot open ".toList ++ shown ++ " for reading: ".toList ++ cause)

/-- Whether names are asked for or not. -/
def namesAsked (os : List (Char × Text)) : Option Bool :=
  ((os.filter fun o => o.1 = 'q' || o.1 = 'v').getLast?).map (·.1 = 'v')

/-- The options of `head` and `tail`. -/
def partGrammar (letters : String) : Grammar :=
  { letters := letters ++ "0123456789"
    words := [("lines", 'n'), ("bytes", 'c'), ("quiet", 'q'), ("silent", 'q'), ("verbose", 'v'),
      ("follow", 'f')] }

/-- The part that options ask for: whether of bytes, and the amount with its sign. -/
def partAsked (os : List (Char × Text)) : Action (Bool × Option Char × Nat) := do
  let asked ← (os.filter fun o => o.1 = 'n' || o.1 = 'c').mapM fun (c, t) => do
    let (sign, n) ← amount (if c = 'c' then "bytes" else "lines") t
    return (c = 'c', sign, n)
  return (asked.getLast?).getD (false, none, 10)

/-- `head`. -/
def head (as : List Text) : Action Unit := do
  let (os, paths) ← readArguments (partGrammar "n:c:qvz") (withOldNumber as)
  refuseOldNumber os fun c => refuse 1 ("invalid trailing option -- ".toList ++ [c])
  let (bytes, sign, n) ← partAsked os
  let but := sign = some '-'
  let part (t : Text) : Text :=
    if bytes then t.take (if but then t.length - n else n)
    else
      let ls := linesWithEnds t
      (ls.take (if but then ls.length - n else n)).flatten
  showParts part (namesAsked os) paths

/-- `tail`. -/
def tail (as : List Text) : Action Unit := do
  let alone := match as with
    | [_] => true
    | [_, b] => b.head? ≠ some '-' || b.length < 2 || b = ['-', '-']
    | [_, b, _] => b = ['-', '-']
    | _ => false
  let (os, paths) ← readArguments (partGrammar "n:c:qvfz") (if alone then withOldNumber as else as)
  refuseOldNumber os fun c => stop 1 ("option used in invalid context -- ".toList ++ [c])
  let (bytes, sign, n) ← partAsked os
  let start := sign = some '+' || os.any fun o => (o.1 = 'n' || o.1 = 'c') && o.2.head? = some '+'
  let part (t : Text) : Text :=
    if bytes then t.drop (if start then n - 1 else t.length - n)
    else
      let ls := linesWithEnds t
      (ls.drop (if start then n - 1 else ls.length - n)).flatten
  showParts part (namesAsked os) paths
  if os.any fun o => o.1 = 'f' then waitUntil (← get).world.deadline

/-- The number of words of a text. Bytes without a shape neither begin nor end a word. -/
def wordCount (inWord : Bool) : Text → Nat
  | [] => 0
  | c :: r =>
    if isBlank c then wordCount false r
    else if isShapeless c then wordCount inWord r
    else (if inWord then 0 else 1) + wordCount true r

/-- The width of the widest line of a text, behind so many columns of it. -/
def lineWidth (widest column : Nat) : Text → Nat
  | [] => max widest column
  | c :: r =>
    if c = '\n' || c = '\r' || c = '\x0c' then lineWidth (max widest column) 0 r
    else if c = '\t' then lineWidth widest (column / 8 * 8 + 8) r
    else lineWidth widest (if isShapeless c then column else column + 1) r

/-- `wc`. -/
def wc (as : List Text) : Action Unit := do
  let (os, paths) ← readArguments
    { letters := "lwcmL"
      words := [("lines", 'l'), ("words", 'w'), ("bytes", 'c'), ("chars", 'm'), ("max-line-length", 'L')]
    } as
  let kinds : List Char := if os.isEmpty then ['l', 'w', 'c'] else ['l', 'w', 'm', 'c', 'L'].filter fun c =>
    os.any fun o => o.1 = c
  let s ← get
  let sized (path : Text) : Action (Option Nat) := do
    if path = ['-'] then
      return match (s.stream? 0).bind s.world.stream? with
        | some (.file l ..) => match s.world.tree.at? l with
          | some (.file t _) => some t.length
          | _ => none
        | _ => none
    else match ← findNode path with
      | .ok (.file t _) => return some t.length
      | .ok .directory => return none
      | .error _ => return some 0
  let given := if paths.isEmpty then [['-']] else paths
  let sizes ← given.mapM sized
  let width :=
    if given.length = 1 && kinds.length = 1 then 1
    else max (if sizes.contains none then 7 else 1) (ofNat ((sizes.filterMap id).foldl (· + ·) 0)).length
  let line (counts : List Nat) (name : Text) : Text :=
    let shown := counts.map fun n =>
      let digits := ofNat n
      List.replicate (width - digits.length) ' ' ++ digits
    List.intercalate [' '] shown ++ (if name.isEmpty then [] else ' ' :: name) ++ ['\n']
  let mut totals := kinds.map fun _ => 0
  for path in given do
    let name := if paths.isEmpty then [] else path
    let r ← content path
    let t := (r.toOption).getD []
    match r with
    | .error cause =>
      say (if path.isEmpty then "invalid zero-length file name".toList
        else shownName path ++ ": ".toList ++ cause)
    | .ok _ => pure ()
    let shows := match r with
      | .ok _ => true
      | .error cause => decide (cause = FileError.isADirectory.message)
    if shows then
      let counts := kinds.map fun
        | 'l' => t.count '\n'
        | 'w' => wordCount false t
        | 'L' => lineWidth 0 0 t
        | _ => t.length
      totals := (kinds.zip (totals.zip counts)).map fun (c, a, b) => if c = 'L' then max a b else a + b
      put (line counts name)
  if 1 < given.length then put (line totals "total".toList)

/-- `tee`. -/
def tee (as : List Text) : Action Unit := do
  let (os, paths) ← readArguments { letters := "aip", words := [("append", 'a')] } as
  let mode : OpenMode := if os.any fun o => o.1 = 'a' then .append else .write
  let mut streams : List Nat := []
  for path in paths do
    let s ← get
    match s.world.openFile path mode false with
    | .ok (stream, world) =>
      let (n, world) := world.addStream stream
      set { s with world }
      streams := streams ++ [n]
    | .error e => say (shownName path ++ ": ".toList ++ e.message)
  match ← inputContent with
  | .ok t =>
    put t
    for n in streams do
      modify fun s => { s with world := (s.world.write? s.number n t).getD s.world }
  | .error cause => say ("-: ".toList ++ cause)

/-! ## Arguments -/

/-- The byte that digits of a base at the front of a text stand for, at most so many. -/
def byteOf (base most : Nat) (t : Text) : Option (Char × Text) :=
  let digits := (t.take most).takeWhile (isDigitTo base)
  if digits.isEmpty then none
  else some (Char.ofNat (valueTo base digits % 256), t.drop digits.length)

/-- A text with its escapes replaced, and whether it goes on after that. -/
def unescaped : Nat → Text → Text × Bool
  | 0, t => (t, true)
  | _ + 1, [] => ([], true)
  | n + 1, '\\' :: r =>
    let go (c : Char) (rest : Text) : Text × Bool :=
      let (t, more) := unescaped n rest
      (c :: t, more)
    match r with
    | 'c' :: _ => ([], false)
    | 'x' :: s => match byteOf 16 2 s with
      | some (c, rest) => go c rest
      | none => go '\\' r
    | '0' :: s => match byteOf 8 3 s with
      | some (c, rest) => go c rest
      | none => go '\x00' s
    | c :: s => match byteOf 8 3 r, escape? c with
      | some (d, rest), _ => go d rest
      | none, some d => go d s
      | none, none => go '\\' r
    | [] => (['\\'], true)
  | n + 1, c :: r =>
    let (t, more) := unescaped n r
    (c :: t, more)

/-- `echo`. -/
def echo (as : List Text) : Action Unit := do
  let isOption (a : Text) : Bool := match a with
    | '-' :: r => !r.isEmpty && r.all fun c => c = 'n' || c = 'e' || c = 'E'
    | _ => false
  let letters := (as.takeWhile isOption).flatten
  let t := List.intercalate [' '] (as.dropWhile isOption)
  let escapes := (letters.filter fun c => c = 'e' || c = 'E').getLast? = some 'e'
  let (t, more) := if escapes then unescaped (t.length + 1) t else (t, true)
  put (if more && !letters.contains 'n' then t ++ ['\n'] else t)

/-- The path without the slashes at its end, unless it is all slashes. -/
def withoutSlashes (path : Text) : Text :=
  let t := (path.reverse.dropWhile (· = '/')).reverse
  if t.isEmpty && !path.isEmpty then ['/'] else t

/-- The last part of a path, without an ending. -/
def lastPart (path ending : Text) : Text :=
  let t := withoutSlashes path
  let name := if t = ['/'] then t else Path.fileName t
  if endsWith name ending && name ≠ ending then name.take (name.length - ending.length) else name

/-- The path before the last part. -/
def firstParts (path : Text) : Text :=
  let t := withoutSlashes path
  let before := t.take (t.length - (Path.fileName t).length)
  if t = ['/'] then t else if before.isEmpty then ['.'] else withoutSlashes before

/-- `basename`. -/
def basename (as : List Text) : Action Unit := do
  let (os, as) ← readArguments
    { letters := "as:z", words := [("multiple", 'a'), ("suffix", 's')], inOrder := true } as
  let ending := ((os.find? fun o => o.1 = 's').map (·.2)).getD []
  match as with
  | [] => refuse 1 "missing operand".toList
  | [a] => put (lastPart a ending ++ ['\n'])
  | a :: b :: rest =>
    if !os.isEmpty then (a :: b :: rest).forM fun a => put (lastPart a ending ++ ['\n'])
    else match rest with
      | [] => put (lastPart a b ++ ['\n'])
      | c :: _ => refuse 1 ("extra operand ".toList ++ plainlyQuoted c)

/-- `dirname`. -/
def dirname (as : List Text) : Action Unit := do
  let (_, as) ← readArguments { letters := "z", inOrder := true } as
  if as.isEmpty then refuse 1 "missing operand".toList
  else as.forM fun a => put (firstParts a ++ ['\n'])

/-- Numbers from a first one in steps, as long as they are no further than the last one. -/
def numbersFrom : Nat → Int → Int → Int → Text
  | 0, _, _, _ => []
  | n + 1, first, step, last =>
    if (0 < step && last < first) || (step < 0 && first < last) then []
    else ofInt first ++ '\n' :: numbersFrom n (first + step) step last

/-- `seq`. -/
def seq (as : List Text) : Action Unit := do
  let number (t : Text) : Action Int := match number? (some 10) t with
    | some n => return n
    | none => refuse 1 ("invalid floating point argument: ".toList ++ plainlyQuoted t)
  let numbers ← as.mapM number
  let write (first step last : Int) : Action Unit :=
    put (numbersFrom ((last - first).natAbs + 1) first step last)
  match numbers with
  | [] => refuse 1 "missing operand".toList
  | [last] => write 1 1 last
  | [first, last] => write first 1 last
  | [first, step, last] =>
    if step = 0 then
      refuse 1 ("invalid Zero increment value: ".toList ++ plainlyQuoted (as[1]?.getD []))
    else write first step last
  | _ => refuse 1 ("extra operand ".toList ++ plainlyQuoted (as[3]?.getD []))

/-- `pwd`. -/
def pwd (as : List Text) : Action Unit := do
  let (_, rest) ← readArguments { letters := "LP" } as
  if !rest.isEmpty then
    say "ignoring non-option arguments".toList
    setStatus 0
  put ('/' :: List.intercalate ['/'] (← get).world.tree.home ++ ['\n'])

/-! ## Time -/

/-- The nanoseconds that a text such as `0.3` or `2m` stands for. -/
def duration? (t : Text) : Option Int :=
  match readFraction t with
    | none => none
    | some (f, _, rest) =>
      let unit? : Option Nat := match rest with
        | [] => some 1
        | ['s'] => some 1
        | ['m'] => some 60
        | ['h'] => some 3600
        | ['d'] => some 86400
        | _ => none
      if f.negative || f.special? = some "nan".toList then none
      else unit?.map fun u =>
        if f.denominator = 0 then Nat.pow 10 24 else ((Nat.pow 10 9 * u * f.numerator / f.denominator : Nat) : Int)

/-- `sleep`. -/
def sleep (as : List Text) : Action Unit := do
  let (_, as) ← readArguments { letters := "" } as
  if as.isEmpty then refuse 1 "missing operand".toList
  let wrong := as.filter fun a => (duration? a).isNone
  if !wrong.isEmpty then
    let said (a : Text) : Text := "invalid time interval ".toList ++ plainlyQuoted a
    wrong.dropLast.forM fun a => say (said a)
    refuse 1 (said (wrong.getLast?.getD []))
  modify fun s =>
    let ends := (as.filterMap duration?).foldl (· + ·) s.world.now
    let nap : Nap := ⟨s.number, s.world.now, ends, s.channels.map (·.2)⟩
    { s with world := { s.world with naps := nap :: s.world.naps } }
  waitUntil (((← get).world.naps.head?.map (·.ends)).getD 0)

end Flatsheet.Shell.Utility
