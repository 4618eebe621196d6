import Flatsheet.Shell.Expansion

/-!
# `Flatsheet.Shell.Channel` — redirections

The words of all redirections of a command are expanded before the first channel changes.

## Contents

* `Destination`, `prepare`: a redirection with its words expanded
* `redirect`: a channel changes
* `redirectWhile`, `redirectForGood`: redirections around an action, and ones that stay
-/

namespace Flatsheet.Shell

open Text

/-! ## Preparation -/

/-- What a channel is to lead to. -/
inductive Destination
  | file (mode : OpenMode) (path : Text)
  /-- The same as another channel. -/
  | channel (number : Nat)
  | closed
  /-- From a text. -/
  | text (t : Text)

/-- The words of a redirection are expanded. -/
def prepare (output : Command → Action Text) : Redirection → Action (Nat × Destination)
  | .file channel mode path => return (channel, .file mode (← expandText output path))
  | .duplicate channel source => do
    match ← expandText output source with
    | ['-'] => return (channel, .closed)
    | [c] => if c.isDigit then return (channel, .channel (c.toNat - 48)) else misread
    | _ => misread
  | .document channel number => do
    let word := ((← get).documents.lookup number).getD []
    return (channel, .text (← expandDocument output word))
where
  /-- This is a fault of the script, which is noticed late. -/
  misread : Action (Nat × Destination) := do
    modify fun s => { s with line := s.readLine }
    fail "Syntax error: Bad fd number".toList

/-! ## Changes of channels -/

/-- The channel that a path stands for, if it stands for one. -/
def channelAt? (path : Text) : Option Nat :=
  match String.ofList path with
  | "/dev/stdin" => some 0
  | "/dev/stdout" => some 1
  | "/dev/stderr" => some 2
  | _ =>
    if startsWith path "/dev/fd/".toList then digits? (path.drop 8)
    else if startsWith path "/proc/self/fd/".toList then digits? (path.drop 14)
    else none

/-- Why a file cannot be opened, in the words of shells. What was to be `kept` was not to be created. -/
def openingFailure (mode : OpenMode) (kept : Bool) (path : Text) (cause : FileError) : Text :=
  let reads := mode = .read || (mode = .write && kept && cause = .isADirectory)
  let absence := if reads then "No such file".toList else "Directory nonexistent".toList
  (if reads then "cannot open " else "cannot create ").toList ++ path ++ ": ".toList
    ++ if cause = .notFound || cause = .notADirectory then absence else cause.message

/-- A channel leads to a new stream. -/
def connect (channel : Nat) (stream : Stream) : Action Unit := modify fun s =>
  let (n, world) := s.world.addStream stream
  { s with world }.setChannel channel (some n)

/-- A channel changes. With `aside`, what it led to is put aside first, so that a message about another
channel cannot go there. -/
def redirect (aside : Bool) (channel : Nat) (d : Destination) : Action Unit := do
  let s ← get
  match d with
  | .closed => set (s.setChannel channel none)
  | .text t => connect channel (.source (if t.isEmpty then [] else [⟨s.world.now, 0, t⟩]) s.world.now)
  | .channel n =>
    match s.stream? n with
    | some stream => set (s.setChannel channel (some stream))
    | none =>
      if aside then set (s.setChannel channel none)
      fail (ofNat n ++ ": Bad file descriptor".toList)
  | .file mode path =>
    match channelAt? path with
    | some n =>
      match s.stream? n with
      | some stream => set (s.setChannel channel (some stream))
      | none => fail (openingFailure mode false path .notFound)
    | none =>
      match s.world.openFile path mode (s.has 'C') with
      | .ok (stream, world) =>
        set { s with world }
        connect channel stream
      | .error cause =>
        fail (openingFailure mode (s.has 'C' && s.world.tree.isDirectory path) path cause)

/-- Channels lead again to the streams that they led to before. -/
def restore (before : List (Nat × Option Nat)) : Action Unit := modify fun s =>
  before.foldl (fun s (channel, stream) => s.setChannel channel stream) s

/-- Makes redirections that stay. -/
def redirectForGood (ds : List (Nat × Destination)) : Action Unit :=
  ds.forM fun (channel, d) => redirect false channel d

/-- Makes redirections for an action; with `stay`, they stay if they are possible. If they are impossible,
there is a message, and another action happens instead. -/
def redirectWhile (output : Command → Action Text) (stay : Bool) (rs : List Redirection)
    (action instead : Action Unit) : Action Unit := do
  if rs.isEmpty then action
  else
    let ds ← rs.mapM (prepare output)
    let s ← get
    let before := ds.map fun (channel, _) => (channel, s.stream? channel)
    let changes := ds.zipIdx.forM fun ((channel, d), n) =>
      redirect (!(ds.take n).any fun e => e.1 = channel) channel d
    match ← attempt changes with
    | .ok _ =>
      let r ← attempt action
      if !stay then restore before
      settle r
    | .error .failed =>
      restore before
      setStatus 2
      instead
    | .error e =>
      restore before
      throw e

end Flatsheet.Shell
