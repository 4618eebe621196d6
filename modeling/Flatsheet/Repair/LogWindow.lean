import Flatsheet.Text.Basic

/-!
# `Flatsheet.Repair.LogWindow` — the new lines of a log seen through a window

Of a log that only grows, only the last lines can be seen. The lines that are new since an earlier look
are those after the longest stretch that the two looks can have in common.
-/

namespace Flatsheet.Repair

/-- The end of the old lines, of a length, is the beginning of the new ones. -/
def overlaps (old new : List Text) (length : Nat) : Bool :=
  length ≤ old.length && new.take length = old.drop (old.length - length)

/-- How many lines are new at least. If the old lines did not fill the window they were the whole log, so
all further lines are new. -/
def leastAppended (window : Nat) (old new : List Text) : Nat :=
  if old.length < window then new.length - old.length else 0

/-- The lines seen now that were not there at the earlier look: as few as fit. -/
def newLines (window : Nat) (old new : List Text) : List Text :=
  let start := leastAppended window old new
  let appended := (List.range (new.length + 1)).find? fun n =>
    start ≤ n && overlaps old new (new.length - n)
  new.drop (new.length - appended.getD new.length)

end Flatsheet.Repair
