import Flatsheet.Text.Delimiter
import Flatsheet.Text.Numeral

/-!
# `Flatsheet.Style.Value` — kinds of values and names of custom properties

## Contents

* `ValueKind` and `ValueKind.of`: what kind of value a text is
* `customProperty`: the name of the custom property of a variable
* `isMapLiteral`, `callsMapHelper`, `opensMapLiteral`: texts that deal with maps
-/

namespace Flatsheet.Style

open Text

/-- The kinds of values that a variable can have. -/
inductive ValueKind
  | color
  | size
  | string
  | number
  | boolean
  | list
  | map
  | unknown
deriving DecidableEq, Repr

/-- The colours that have a name. -/
def namedColors : List Text :=
  ["black", "white", "red", "green", "blue", "yellow", "orange", "purple", "gray", "grey", "pink",
    "brown", "navy", "teal", "silver", "maroon", "transparent", "currentcolor"].map String.toList

/-- The units that make a number a size. -/
def sizeUnits : List Text :=
  ["px", "rem", "em", "%", "vh", "vw", "vmin", "vmax", "pt", "pc", "cm", "mm", "in", "ch",
    "ex"].map String.toList

/-- `#` and three, four, six or eight hexadecimal digits. -/
def isHexColor (t : Text) : Bool :=
  match t with
  | '#' :: ds => [3, 4, 6, 8].contains ds.length && ds.all isHexDigit
  | _ => false

/-- A hexadecimal colour, a colour function or a named colour, in small letters. -/
def isColor (lowered : Text) : Bool :=
  isHexColor lowered || ["rgb(", "rgba(", "hsl(", "hsla("].any (startsWith lowered ·.toList)
    || namedColors.contains lowered

/-- The text after the number it starts with: an optional sign and digits with at most one point among
them. -/
def afterNumber? (t : Text) : Option Text :=
  match t with
  | '-' :: r => afterMantissa? Char.isDigit r
  | '+' :: r => afterMantissa? Char.isDigit r
  | _ => afterMantissa? Char.isDigit t

/-- A number with a unit, in small letters. -/
def isSize (lowered : Text) : Bool := (afterNumber? lowered).any sizeUnits.contains

/-- A text inside quotes of one kind. -/
def isQuoted (t : Text) : Bool :=
  match t.head? with
  | some q => (q = '"' || q = '\'') && 2 ≤ t.length && t.getLast? = some q
  | none => false

/-- The text without the quotes around it, if there are any. -/
def unquote (t : Text) : Text := if isQuoted t then t.tail.dropLast else t

/-- The kind of a value. The tests are tried in this order: colour, size, boolean, string, list, map,
number. -/
def ValueKind.of (raw : Text) : ValueKind :=
  let value := trim raw
  let lowered := lower value
  let grouped := value.head? = some '('
  if value.isEmpty then .unknown
  else if isColor lowered then .color
  else if isSize lowered then .size
  else if lowered = "true".toList || lowered = "false".toList then .boolean
  else if isQuoted value then .string
  else if !grouped && 1 < (splitTopLevel ',' value).length then .list
  else if grouped && value.getLast? = some ')' && value.contains ':' then .map
  else if isNumeral value then .number
  else .unknown

/-- The custom property of a variable, whose name may be given with its dollar sign. -/
def customProperty (name : Text) : Text :=
  match name with
  | '$' :: r => '-' :: '-' :: r
  | _ => '-' :: '-' :: name

/-- The value is written in parentheses and has a colon. -/
def isMapLiteral (value : Text) : Bool := (trim value).head? = some '(' && (trim value).contains ':'

/-- The text calls one of the functions that read or merge maps. -/
def callsMapHelper (t : Text) : Bool :=
  ["map-get(", "map-keys(", "map-has-key(", "map-merge(", "map.get("].any (has t ·.toList)

/-- The trimmed line starts with `$name: (` or `--name: (`. -/
def opensMapLiteral (line : Text) : Bool :=
  let named (t : Text) : Bool :=
    !(t.takeWhile isIdent).isEmpty
      && match trimLeft (t.dropWhile isIdent) with
        | ':' :: r => (trimLeft r).head? = some '('
        | _ => false
  match line with
  | '$' :: r => named r
  | '-' :: '-' :: r => named r
  | _ => false

end Flatsheet.Style
