import Flatsheet.Text.Basic

/-!
# `Flatsheet.Style.Layout` — normal form of line ends and blank lines
-/

namespace Flatsheet.Style

open Text

/-- The lines without each empty line that follows an empty line. `afterEmpty` says that the line before
them is empty. -/
def squeezeFrom (afterEmpty : Bool) : List Text → List Text
  | [] => []
  | l :: ls =>
    if l.isEmpty && afterEmpty then squeezeFrom true ls else l :: squeezeFrom l.isEmpty ls

/-- The text without blanks at line ends, without repeated empty lines and without blanks at its ends. -/
def clean (t : Text) : Text := trim (unlines (squeezeFrom false ((lines t).map trimRight)))

end Flatsheet.Style
