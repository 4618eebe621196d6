import Flatsheet.Text.Span
import Flatsheet.Text.Sweep
import Flatsheet.Style.Value

/-!
# `Flatsheet.Style.AssetPath` — relative asset addresses become absolute

## Contents

* `AssetHosts`: the addresses under which assets are served
* `AssetHosts.absolute?`: the absolute address of a relative path
* `AssetHosts.makeAbsolute`: the `url(…)` of a text
-/

namespace Flatsheet.Style

open Text

/-- The addresses of the theme's assets and of the common theme's assets. -/
structure AssetHosts where
  theme : Text
  common : Text
deriving DecidableEq, Repr

/-- The address without slashes at its end. -/
def stripSlashes (t : Text) : Text := (t.reverse.dropWhile (· = '/')).reverse

/-- The relative path of the theme's images. -/
def imagesDirectory : Text := "../images/".toList

/-- The relative path of the common theme. -/
def commonDirectory : Text := "../../DealerInspireCommonTheme/".toList

namespace AssetHosts

/-- The absolute address of a path inside the images or the common theme; nothing for other paths. -/
def absolute? (hosts : AssetHosts) (path : Text) : Option Text :=
  if startsWith path imagesDirectory then
    some (stripSlashes hosts.theme ++ "/images/".toList ++ path.drop imagesDirectory.length)
  else if startsWith path commonDirectory then
    some (stripSlashes hosts.common ++ "/".toList ++ path.drop commonDirectory.length)
  else none

/-- Looks for `url(…)` in the comment mask of `t`, whose code mask is `code`; the address is new or
missing. After one that is never closed, nothing more is found. -/
def look (hosts : AssetHosts) (t code : Text) (c : Cursor) : Sighting (Span × Option Text) :=
  if !startsWith c.rest "url(".toList || c.byteBefore?.any isIdent then .nothing
  else match closingOffset? '(' ')' 0 (code.drop (c.pos + 3)) with
    | none => .over
    | some n =>
      let inner := unquote (trim (slice t (c.pos + 4) (c.pos + 3 + n)))
      .found (⟨c.pos, c.pos + 3 + n + 1⟩, hosts.absolute? inner) (3 + n + 1)

/-- The replacements of the addresses of a text that become absolute. -/
def edits (hosts : AssetHosts) (t : Text) : List (Span × Text) :=
  (sweep (hosts.look t (codeMask t)) (commentMask t)).filterMap fun (s, address) =>
    address.map fun a => (s, "url(\"".toList ++ a ++ "\")".toList)

/-- The text with its relative asset addresses made absolute, and their number. -/
def makeAbsolute (hosts : AssetHosts) (t : Text) : Text × Nat :=
  let es := hosts.edits t
  (replaceSpans t es, es.length)

end AssetHosts

end Flatsheet.Style
