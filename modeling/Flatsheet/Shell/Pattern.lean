import Flatsheet.System.FileTree

/-!
# `Flatsheet.Shell.Pattern` — patterns of texts and of paths

In a pattern a star stands for any text, a question mark for any byte, and brackets for one of the bytes
in them, unless they are quoted.

## Contents

* `Pattern.matchesText`: a text matches a pattern
* `Pattern.cutFront`, `Pattern.cutBack`: a text without what matches at one of its ends
* `Pattern.paths`: the paths that match a pattern
-/

namespace Flatsheet.Shell

open Text

/-- The bytes of a pattern, marked if they stand for themselves. -/
abbrev Pattern := List (Char × Bool)

namespace Pattern

/-! ## Brackets -/

/-- The classes of bytes that have a name. -/
def byteClass? (name : String) : Option (Char → Bool) :=
  let graphic (c : Char) : Bool := '!' ≤ c && c ≤ '~'
  match name with
  | "alnum" => some Char.isAlphanum
  | "alpha" => some Char.isAlpha
  | "blank" => some isSpaceOrTab
  | "cntrl" => some fun c => c < ' ' || c = '\x7f'
  | "digit" => some Char.isDigit
  | "graph" => some graphic
  | "lower" => some Char.isLower
  | "print" => some fun c => graphic c || c = ' '
  | "punct" => some fun c => graphic c && !c.isAlphanum
  | "space" => some isBlank
  | "upper" => some Char.isUpper
  | "xdigit" => some isHexDigit
  | _ => none

/-- The class that is named at the front of a pattern behind its bracket, and what follows it. -/
def namedClass? (p : Pattern) : Option ((Char → Bool) × Pattern) :=
  match p with
  | (':', false) :: r =>
    let name := r.takeWhile fun b => b.1.isLower
    match r.drop name.length with
    | (':', false) :: (']', false) :: rest =>
      (byteClass? (String.ofList (name.map (·.1)))).map (·, rest)
    | _ => none
  | _ => none

/-- Whether a byte is one of those in brackets, and what follows the second bracket, if there is one. The
first byte in brackets does not close them. -/
def inBrackets (c : Char) : Nat → Bool → Bool → Pattern → Option (Bool × Pattern)
  | 0, _, _, _ => none
  | _ + 1, _, _, [] => none
  | n + 1, first, found, b :: p =>
    if !first && b = (']', false) then some (found, p)
    else
      let named := if b = ('[', false) then namedClass? p else none
      match named with
      | some (holds, rest) => inBrackets c n false (found || holds c) rest
      | none =>
        match p with
        | ('-', false) :: last :: rest =>
          if last = (']', false) then inBrackets c n false (found || b.1 = c) p
          else inBrackets c n false (found || (b.1 ≤ c && c ≤ last.1)) rest
        | _ => inBrackets c n false (found || b.1 = c) p

/-- Whether a byte is what brackets at the front of a pattern stand for, behind the first one, and what
follows the second one. -/
def bracket? (c : Char) (p : Pattern) : Option (Bool × Pattern) :=
  let (inverted, p) := match p with
    | ('!', false) :: r => (true, r)
    | _ => (false, p)
  (inBrackets c (p.length + 1) true false p).map fun (found, rest) => (found != inverted, rest)

/-! ## Texts -/

/-- A text matches a pattern, in at most so many steps. -/
def matchesWithin : Nat → Pattern → Text → Bool
  | 0, _, _ => false
  | _ + 1, [], t => t.isEmpty
  | n + 1, (c, quoted) :: p, t =>
    if c = '*' && !quoted then
      matchesWithin n p t || match t with
        | [] => false
        | _ :: r => matchesWithin n ((c, quoted) :: p) r
    else match t with
      | [] => false
      | d :: r =>
        if c = '?' && !quoted then matchesWithin n p r
        else match if c = '[' && !quoted then bracket? d p else none with
          | some (found, rest) => found && matchesWithin n rest r
          | none => c = d && matchesWithin n p r

/-- A text matches a pattern. -/
def matchesText (p : Pattern) (t : Text) : Bool := matchesWithin (p.length + t.length + 1) p t

/-- The text without the shortest or the longest beginning that matches. -/
def cutFront (p : Pattern) (longest : Bool) (t : Text) : Text :=
  let lengths := List.range (t.length + 1)
  let lengths := if longest then lengths.reverse else lengths
  match lengths.find? fun n => p.matchesText (t.take n) with
  | some n => t.drop n
  | none => t

/-- The text without the shortest or the longest end that matches. -/
def cutBack (p : Pattern) (longest : Bool) (t : Text) : Text :=
  let lengths := List.range (t.length + 1)
  let lengths := if longest then lengths else lengths.reverse
  match lengths.find? fun n => p.matchesText (t.drop n) with
  | some n => t.take n
  | none => t

/-! ## Paths -/

/-- The bytes of a pattern, as they stand there. -/
def toText (p : Pattern) : Text := p.map (·.1)

/-- Something in the pattern stands for other bytes. -/
def isWild : Pattern → Bool
  | [] => false
  | (c, quoted) :: p =>
    (!quoted && (c = '*' || c = '?' || (c = '[' && (p.drop 1).contains (']', false)))) || isWild p

/-- The pattern between slashes, piece by piece. -/
def splitAtSlashes (p : Pattern) : List Pattern :=
  p.foldr (fun b pieces =>
    if b.1 = '/' then [] :: pieces
    else match pieces with
      | [] => [[b]]
      | piece :: more => (b :: piece) :: more) [[]]

/-- The names in the directory at a path that match a piece of a pattern. Only a pattern with a dot in
front matches a name with one. -/
def names (t : FileTree) (path : Text) (piece : Pattern) : List Text :=
  match t.locate (if path.isEmpty then ['.'] else path) with
  | .error _ => []
  | .ok l =>
    if !t.directoryAt l then []
    else
      let hidden := (piece.head?.map (·.1)) = some '.'
      ((if hidden then [['.'], ['.', '.']] else []) ++ t.names l).filter fun name =>
        (hidden || name.head? ≠ some '.') && piece.matchesText name

/-- The paths that match the pieces of a pattern after the given beginning. -/
def pathsFrom (t : FileTree) (before : Text) : List Pattern → List Text
  | [] => if t.present before then [before] else []
  | piece :: more =>
    let names := if isWild piece then names t before piece else [toText piece]
    names.flatMap fun name => pathsFrom t (before ++ name ++ if more.isEmpty then [] else ['/']) more

/-- The words that a pattern makes: the paths that it matches, in byte order, or its own text. -/
def paths (t : FileTree) (p : Pattern) : List Text :=
  let found := if p.isWild then pathsFrom t [] (splitAtSlashes p) else []
  if found.isEmpty then [p.toText] else found.mergeSort inOrder

end Pattern

end Flatsheet.Shell
