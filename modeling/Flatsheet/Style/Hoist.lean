import Flatsheet.Style.Reference
import Flatsheet.Style.Scope
import Flatsheet.Style.Variable

/-!
# `Flatsheet.Style.Hoist` — variables become custom properties of the root element

The declarations are cut out of the text, the references that remain in plain rules are converted, and a
`:root` block with one custom property per variable is put in front.

## Contents

* `joinLineBreaks`: a value on one line
* `convertUsages`: the references of a text, line by line
* `rootBlock`, `hoist`
-/

namespace Flatsheet.Style

open Text

/-- Puts a value on one line. A line break, with the spaces and tabs around it, becomes one space, or
nothing after an opening and before a closing parenthesis. `out` is what has been written, last byte
first; `broken` says that a line break has just been read. -/
def joinLineBreaksFrom (out : Text) (broken : Bool) : Text → Text
  | [] => out.reverse
  | c :: r =>
    if c = '\n' || c = '\r' then joinLineBreaksFrom (out.dropWhile isSpaceOrTab) true r
    else if broken && isSpaceOrTab c then joinLineBreaksFrom out true r
    else if broken && !out.isEmpty && out.head? ≠ some '(' && c ≠ ')' then
      joinLineBreaksFrom (c :: ' ' :: out) false r
    else joinLineBreaksFrom (c :: out) false r

/-- The value on one line. -/
def joinLineBreaks (value : Text) : Text := joinLineBreaksFrom [] false value

/-- The value that a variable's custom property gets. Maps and calls that read maps keep their
references. -/
def Variable.hoistedValue (v : Variable) : Text :=
  let value := joinLineBreaks v.value
  if isMapLiteral value || callsMapHelper value then value else (convertReferences value).1

/-- The lines of a text with their references converted as the tracker allows, and the number of
converted references. Each line comes with its part of the code mask. -/
def convertLines (t : Tracker) : List (Text × Text) → List Text × Nat
  | [] => ([], 0)
  | (line, code) :: rest =>
    let (converted, n) :=
      match if code.contains '$' then t.convertFrom? code else none with
      | none => (line, 0)
      | some start =>
        if start < line.length then
          let (tail, n) := Reference.convertMasked (line.drop start) (code.drop start)
          (line.take start ++ tail, n)
        else (line, 0)
    let (others, m) := convertLines (t.advance code) rest
    (converted :: others, n + m)

/-- The text with the references of its plain rules converted, and their number. -/
def convertUsages (t : Text) : Text × Nat :=
  let (ls, n) := convertLines {} ((lines t).zip (lines (codeMask t)))
  (unlines ls, n)

/-- One custom property of the root block. -/
def Variable.property (v : Variable) : Text :=
  "  ".toList ++ v.customProperty ++ ": ".toList ++ v.hoistedValue ++ ";\n".toList

/-- The block that declares a custom property for each variable. -/
def rootBlock (vars : List Variable) : Text :=
  ":root \x7b\n".toList ++ vars.flatMap Variable.property ++ "\x7d\n\n".toList

/-- The result of hoisting. -/
structure Hoisted where
  content : Text
  vars : List Variable
  converted : Nat
  notes : List Note

/-- Cuts the declarations out, converts the references and puts the root block in front, if there are
variables. -/
def hoist (content : Text) : Hoisted :=
  let ds := Declaration.find content
  let folded := Variable.fold content ds
  let vars := folded.vars
  let (body, n) := convertUsages (eraseStatements content (ds.map (·.span)))
  ⟨if vars.isEmpty then body else rootBlock vars ++ trimLeft body, vars, n, folded.notes content⟩

end Flatsheet.Style
