/-!
# `Flatsheet.StageTrace` — the ordered record of the stages a run passed through
-/

namespace Flatsheet

/-- The stages that a run entered, first to last. -/
structure StageTrace (σ : Type) where
  stages : List σ := []
deriving Repr

namespace StageTrace

variable {σ : Type}

/-- The run enters a stage. -/
def record (t : StageTrace σ) (s : σ) : StageTrace σ := ⟨t.stages ++ [s]⟩

/-- How often the run entered a stage. -/
def count [BEq σ] (t : StageTrace σ) (s : σ) : Nat := t.stages.count s

/-- The run entered the stage at least once. -/
def visited [BEq σ] (t : StageTrace σ) (s : σ) : Bool := t.stages.contains s

end StageTrace

end Flatsheet
