import Flatsheet.Text.Basic

/-!
# `Flatsheet.System.Path` — file paths as texts

A path is a text whose components are separated by slashes. These operations are purely lexical; what a
path leads to is a matter of `Flatsheet.System.FileTree`.

## Contents

* `Path.fileName`, `Path.parent`, `Path.join`, `Path.withExtension`
* `Path.visible`, `Path.components`: what matters for finding a file
-/

namespace Flatsheet.Path

open Text

/-- The part after the last slash. -/
def fileName (p : Text) : Text := (p.reverse.takeWhile (· ≠ '/')).reverse

/-- The path without its file name and without the slashes before it; of a path with nothing else before
its file name, only the root remains. -/
def parent (p : Text) : Text :=
  let head := (p.reverse.dropWhile (· ≠ '/')).reverse
  let stripped := (head.reverse.dropWhile (· = '/')).reverse
  if stripped.isEmpty && !head.isEmpty then ['/'] else stripped

/-- The path starts at the root. -/
def isAbsolute (p : Text) : Bool := p.head? = some '/'

/-- The second path, taken from the first one unless it is absolute. -/
def join (p q : Text) : Text :=
  if isAbsolute q || p.isEmpty then q
  else if p.getLast? = some '/' then p ++ q
  else p ++ '/' :: q

/-- The file name up to its last dot, unless that is its first byte. -/
def stem (name : Text) : Text :=
  let head := ((name.reverse.dropWhile (· ≠ '.')).drop 1).reverse
  if head.isEmpty || name = ['.', '.'] then name else head

/-- The last dot of the file name and what follows it, unless the dot is the first byte. -/
def extension (p : Text) : Text := (fileName p).drop (stem (fileName p)).length

/-- The path with another extension, which begins with its dot. -/
def withExtension (p ext : Text) : Text := p.take (p.length - (extension p).length) ++ ext

/-- The part of a path that leads somewhere: the first NUL ends it. -/
def visible (p : Text) : Text := p.takeWhile (· ≠ '\x00')

/-- The pieces that name something: neither empty nor a single dot. -/
def components (p : Text) : List Text := (splitOn '/' p).filter fun c => !c.isEmpty && c ≠ ['.']

/-- The last piece says that the path can only be a directory. -/
def mustBeDirectory (p : Text) : Bool :=
  let name := fileName (visible p)
  name.isEmpty || name = ['.'] || name = ['.', '.']

end Flatsheet.Path
