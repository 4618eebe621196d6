import Flatsheet.Shell.Word
import Flatsheet.System.Machine

/-!
# `Flatsheet.Shell.Stream` — what channels lead to

Programs read from and write to channels, and channels lead to streams. Several channels, also those of
different programs, can lead to the same stream and then share the place in it.

## Contents

* `Stream`, `World`: the streams and everything else that programs share
* `World.write?`: output
* `World.readLine?`, `World.readAll?`, `World.readSome?`: input
* `World.openFile`: a stream that leads to a file
* `World.heldUntil`: how long programs in the background keep a stream open
-/

namespace Flatsheet.Shell

open Text

/-- A piece of output, with the time at which a program of that number wrote it. -/
structure Chunk where
  time : Int
  writer : Nat
  text : Text
deriving Repr

/-- What channels lead to. -/
inductive Stream
  /-- To a reader elsewhere. The chunks come latest first. -/
  | sink (chunks : List Chunk)
  /-- From a writer elsewhere, who closes it at a time. -/
  | source (chunks : List Chunk) (closes : Int)
  /-- To and from a place in a file. -/
  | file (l : Location) (place : Nat) (reads writes appends : Bool)
  /-- From a directory, which cannot be read. -/
  | directory
  | nothing
deriving Repr

/-- A program that runs in the background. -/
structure Process where
  number : Nat
  /-- The number of the program that has started it. -/
  parent : Nat
  /-- The programs that it has started have numbers below this one. -/
  upTo : Nat
  ends : Int
  status : Nat
  /-- The signal that has ended it. -/
  signal : Option Nat
  /-- The streams that it keeps open. -/
  streams : List Nat
  /-- Somebody has waited for it. -/
  awaited : Bool := false
deriving Repr

/-- A time during which a program sleeps. -/
structure Nap where
  number : Nat
  starts : Int
  ends : Int
  /-- The streams that the program keeps open. -/
  streams : List Nat
deriving Repr

/-- What programs share. Times are given in nanoseconds. -/
structure World where
  machine : Machine
  now : Int
  /-- When everything is stopped. -/
  deadline : Int
  streams : List (Nat × Stream) := []
  processes : List Process := []
  naps : List Nap := []
  /-- The signals that a program of a number has not noticed yet, with the time they come at. -/
  posted : List (Int × Nat × Nat) := []
  /-- The number of the next stream or program. -/
  next : Nat := 2
deriving Repr

namespace World

/-- The stream that leads nowhere. -/
def nowhere : Nat := 0

/-- The stream that whoever runs the programs reads. -/
def outlet : Nat := 1

/-- The nanoseconds of a millisecond. -/
def millisecond : Int := 1000000

/-- A world in which nothing has been written yet, and which is stopped after so many milliseconds. -/
def start (machine : Machine) (limit : Int) : World :=
  let now := machine.clock * millisecond
  { machine, now, deadline := now + limit * millisecond
    streams := [(nowhere, .nothing), (outlet, .sink [])] }

/-- The files. -/
def tree (w : World) : FileTree := w.machine.tree

/-- The world with other files. -/
def setTree (w : World) (tree : FileTree) : World := { w with machine := { w.machine with tree } }

/-- The world at another time. -/
def setTime (w : World) (now : Int) : World := { w with now }

/-- How long it takes until a new program goes its own way. This is too short to be noticed, but it decides
who comes first. -/
def splitTime : Int := 300

/-- How long it takes until a program from a file has taken the place of another one. -/
def loadTime : Int := 700

/-- Time passes. -/
def pass (w : World) (time : Int) : World := w.setTime (w.now + time)

/-- The machine that programs leave behind, at a time. -/
def machineAt (w : World) (time : Int) : Machine := { w.machine with clock := time / millisecond }

/-- The stream of a number. -/
def stream? (w : World) (number : Nat) : Option Stream := w.streams.lookup number

/-- A stream gets another state. -/
def setStream (w : World) (number : Nat) (s : Stream) : World :=
  { w with streams := w.streams.map fun p => if p.1 = number then (number, s) else p }

/-- A new stream. -/
def addStream (w : World) (s : Stream) : Nat × World :=
  (w.next, { w with streams := (w.next, s) :: w.streams, next := w.next + 1 })

/-- The number of a new program. -/
def addProgram (w : World) : Nat × World := (w.next, { w with next := w.next + 1 })

/-! ## Output -/

/-- A text with another one written over it from an offset on. -/
def overwrite (content : Text) (place : Nat) (t : Text) : Text :=
  content.take place ++ List.replicate (place - content.length) '\x00' ++ t
    ++ content.drop (place + t.length)

/-- Writes to a stream, unless that is impossible. -/
def write? (w : World) (writer number : Nat) (t : Text) : Option World :=
  match w.stream? number with
  | some (.sink chunks) =>
    some (if t.isEmpty then w else w.setStream number (.sink (⟨w.now, writer, t⟩ :: chunks)))
  | some .nothing => some w
  | some (.file l place reads true appends) =>
    match w.tree.at? l with
    | some (.file content x) =>
      let place := if appends then content.length else place
      let w := w.setTree (w.tree.put l (.file (overwrite content place t) x))
      some (w.setStream number (.file l (place + t.length) reads true appends))
    | _ => some w
  | _ => none

/-- What has been written to a stream, in the order of time. -/
def written (w : World) (number : Nat) : List Chunk :=
  match w.stream? number with
  | some (.sink chunks) => chunks.reverse.mergeSort fun a b => a.time ≤ b.time
  | _ => []

/-- When the last program in the background lets go of a stream. -/
def heldUntil (w : World) (number : Nat) : Int :=
  (w.processes.filter fun p => p.streams.contains number).foldl (fun t p => max t p.ends) w.now

/-! ## Input -/

/-- The bytes of chunks with the times they come at. -/
def timed (chunks : List Chunk) : List (Int × Char) :=
  chunks.flatMap fun c => c.text.map (c.time, ·)

/-- The line at the front of a stream with its end, when it is there, and the world after reading it.
Without an end, it is the last one. -/
def readLine? (w : World) (number : Nat) : Option (Text × Int × World) :=
  match w.stream? number with
  | some (.source chunks closes) =>
    let bytes := timed chunks
    let line := bytes.takeWhile fun b => b.2 ≠ '\n'
    let rest := bytes.drop line.length
    let stay : List Chunk := (rest.drop 1).map fun b => ⟨b.1, 0, [b.2]⟩
    let time := match rest with
      | b :: _ => max w.now b.1
      | [] => max w.now closes
    some ((line ++ rest.take 1).map (·.2), time, w.setStream number (.source stay closes))
  | some (.file l place true writes appends) =>
    match w.tree.at? l with
    | some (.file content _) =>
      let bytes := content.drop place
      let line := bytes.takeWhile (· ≠ '\n')
      let line := line ++ (bytes.drop line.length).take 1
      some (line, w.now, w.setStream number (.file l (place + line.length) true writes appends))
    | _ => some ([], w.now, w)
  | some .nothing => some ([], w.now, w)
  | _ => none

/-- Everything that is left in a stream, when it is there, and the world after reading it. -/
def readAll? (w : World) (number : Nat) : Option (Text × Int × World) :=
  match w.stream? number with
  | some (.source chunks closes) =>
    some (chunks.flatMap (·.text), max w.now closes, w.setStream number (.source [] closes))
  | some (.file l place true writes appends) =>
    match w.tree.at? l with
    | some (.file content _) =>
      some (content.drop place, w.now, w.setStream number (.file l content.length true writes appends))
    | _ => some ([], w.now, w)
  | some .nothing => some ([], w.now, w)
  | _ => none

/-- What comes next in a stream, when it is there, and the world after reading it. The end is empty. -/
def readSome? (w : World) (number : Nat) : Option (Text × Int × World) :=
  match w.stream? number with
  | some (.source (c :: cs) closes) =>
    some (c.text, max w.now c.time, w.setStream number (.source cs closes))
  | some (.source [] closes) => some ([], max w.now closes, w)
  | _ => w.readAll? number

/-! ## Files -/

/-- The location of the file that swallows everything. -/
def nullFile : Location := ["dev".toList, "null".toList]

/-- A stream that leads to the file at a path, which is opened in a mode. With `keep` a file that exists
is not written over. -/
def openFile (w : World) (path : Text) (mode : OpenMode) (keep : Bool) :
    Except FileError (Stream × World) :=
  let reads := mode = .read || mode = .readWrite
  match w.tree.locate path with
  | .error e => .error e
  | .ok l =>
    if l = nullFile then .ok (.nothing, w)
    else match w.tree.at? l with
      | some .directory => if mode = .read then .ok (.directory, w) else .error .isADirectory
      | some (.file _ x) =>
        if Path.mustBeDirectory path then
          .error (if mode = .read then .notADirectory else .isADirectory)
        else if keep && mode = .write then .error .taken
        else
          let cut := mode = .write || mode = .overwrite
          let w := if cut then w.setTree (w.tree.put l (.file [] x)) else w
          .ok (.file l 0 reads (mode ≠ .read) (mode = .append), w)
      | none =>
        if mode = .read then .error .notFound
        else if Path.mustBeDirectory path then .error .isADirectory
        else match w.tree.create path [] with
          | .error e => .error e
          | .ok tree => .ok (.file l 0 reads true (mode = .append), w.setTree tree)

end World

end Flatsheet.Shell
