import Flatsheet.System.FileTree

/-!
# `Flatsheet.Repair.Surroundings` — what a verification deals with

A verification works in a world of type `σ` that it does not know: a tree of files in which a compiler
watches a directory, the log of that compiler, a clock, a user who may cancel, and something that puts the
watched directory back into its former state. Whatever happens in the world besides happens while the
verification sleeps, reads the log, asks whether it is cancelled or has the directory put back.

## Contents

* `LogReading`, `Reversion`: what can come of reading the log and of putting back a directory
* `Surroundings`, with `writeFile` and `remove`
-/

namespace Flatsheet.Repair

/-- What comes of reading the log. -/
inductive LogReading
  | lines (ls : List Text)
  | unavailable (message : Text)
  /-- The log breaks down, and with it what is being done. -/
  | broken (message : Text)
deriving DecidableEq, Repr

/-- What comes of putting back a directory. -/
inductive Reversion
  | done
  | failed (message : Text)
  /-- The attempt itself breaks down. -/
  | broken (message : Text)
deriving DecidableEq, Repr

/-- How often one looks while waiting, with so much time between two looks, if each sleep takes the time
it should. -/
def looksIn (interval wait : Int) : Nat := ((wait + interval - 1) / interval).toNat

/-- The dealings with a world. Times are in milliseconds. -/
structure Surroundings (σ : Type) where
  tree : σ → FileTree
  setTree : FileTree → σ → σ
  tree_setTree : ∀ t w, tree (setTree t w) = t := by intros; rfl
  /-- At most so many of the last lines of the log. -/
  tail : Nat → σ → LogReading × σ
  now : σ → Int
  sleep : Int → σ → σ
  isCancelled : σ → Bool × σ
  /-- Put the directory at a path back into its former state. -/
  revert : Text → σ → Reversion × σ
  /-- How often one looks at most while waiting, given the time between two looks and the time to wait. A
  wait ends when the clock says so; this bound is for clocks that do not move on. -/
  patience : Int → Int → Nat := looksIn

namespace Surroundings

variable {σ : Type}

/-- Writes a file in the world. -/
def writeFile (env : Surroundings σ) (path content : Text) (w : σ) :
    Except FileTree.WriteError Unit × σ :=
  let (result, t) := (env.tree w).writeFile path content
  (result, env.setTree t w)

/-- Removes a file of the world. -/
def remove (env : Surroundings σ) (path : Text) (w : σ) : Except FileError Unit × σ :=
  match (env.tree w).remove path with
  | .ok t => (.ok (), env.setTree t w)
  | .error e => (.error e, w)

end Surroundings

end Flatsheet.Repair
