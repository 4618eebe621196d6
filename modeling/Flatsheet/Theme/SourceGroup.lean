import Flatsheet.System.FileTree

/-!
# `Flatsheet.Theme.SourceGroup` — which style sheets of a theme make up which file

## Contents

* `SourceGroup`, `SourceGroup.all`
* `BrandFragment`, `BrandFragment.ofBrand`
* `appendFragments`: the fragments of a brand that a style sheet lacks
-/

namespace Flatsheet.Theme

open Text

/-- Style sheets of a theme that are merged into one file. -/
structure SourceGroup where
  name : Text
  /-- The names of the style sheets, in the order in which they are merged. -/
  sources : List Text
  /-- The name of the file. -/
  output : Text
deriving DecidableEq, Repr

/-- The group with a name, whose style sheets and file have names that end in `.scss`. -/
def SourceGroup.named (name : String) (sources : List String) : SourceGroup where
  name := name.toList
  sources := sources.map fun s => s.toList ++ ".scss".toList
  output := "sb-".toList ++ name.toList ++ ".scss".toList

/-- All groups of a theme. -/
def SourceGroup.all : List SourceGroup :=
  [.named "inside" ["style"], .named "vdp" ["lvdp", "vdp"], .named "vrp" ["lvrp", "vrp"],
    .named "home" ["home"]]

/-- A piece of style sheet that every theme of a brand has. -/
structure BrandFragment where
  file : Text
  /-- A style sheet that holds one of these has the piece already. -/
  markers : List Text
deriving DecidableEq, Repr

/-- The fragments of a brand, whose name may be of any case. -/
def BrandFragment.ofBrand (brand : Text) : List BrandFragment :=
  if lower brand = "stellantis".toList then
    [⟨"cookie-banner.scss".toList, [".cookie-banner".toList]⟩,
      ⟨"directions-row.scss".toList, ["#mapRow".toList, "#directionsBox".toList]⟩]
  else []

/-- The fragment is in a style sheet already. -/
def BrandFragment.isIn (f : BrandFragment) (content : Text) : Bool :=
  f.markers.any (has content ·)

/-- A text that is not empty ends in a line feed. -/
def endLine (t : Text) : Text :=
  if t.isEmpty || t.getLast? = some '\n' then t else t ++ ['\n']

/-- A style sheet with fragments appended. -/
structure Appended where
  content : Text
  /-- The names of the files that were appended. -/
  files : List Text := []
  /-- Why the appending stopped before its end. -/
  failure : Option FileTree.ReadError := none
deriving DecidableEq, Repr

/-- Appends those fragments from a directory that are not in the style sheet, up to the first one that
cannot be read. -/
def appendAll (directory : Text) (t : FileTree) (a : Appended) : List BrandFragment → Appended
  | [] => a
  | f :: fs =>
    if f.isIn a.content then appendAll directory t a fs
    else match t.read (Path.join directory f.file) with
      | .error cause => { a with failure := some cause }
      | .ok text =>
        appendAll directory t
          { a with
            content := endLine a.content ++ '\n' :: trim text ++ ['\n']
            files := a.files ++ [f.file] } fs

/-- Appends the fragments of a brand, which lie in the directory of the brand under the resources. -/
def appendFragments (content brand resources : Text) (t : FileTree) : Appended :=
  appendAll (Path.join resources (lower brand)) t { content } (BrandFragment.ofBrand brand)

end Flatsheet.Theme
