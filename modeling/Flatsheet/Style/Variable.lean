import Flatsheet.Diagnostic
import Flatsheet.Style.Declaration

/-!
# `Flatsheet.Style.Variable` — variables folded from their declarations

Several declarations of one name make one variable. Its place and its default flag are those of the
first declaration. Its value is that of the last declaration that is not a default, or that of the first
one if all are defaults.

## Contents

* `Variable` with `kind`, `customProperty` and `dependencies`
* `Variable.Folded`, `Variable.fold`: what a list of declarations makes
* `Variable.Folded.notes`: what is worth saying about redeclared and undeclared names
* `Variable.extract`
-/

namespace Flatsheet.Style

open Text

/-- A variable of a style sheet. -/
structure Variable where
  name : Text
  value : Text
  line : Nat
  isDefault : Bool
deriving DecidableEq, Repr

/-- The names after a dollar sign, in order, with repetitions. The next `wait` bytes belong to the last
name. -/
def referencedFrom (wait : Nat) : Text → List Text
  | [] => []
  | c :: r =>
    if 0 < wait then referencedFrom (wait - 1) r
    else if c = '$' && r.head?.any isIdentStart then
      r.takeWhile isIdent :: referencedFrom (spanLength isIdent r) r
    else referencedFrom 0 r

/-- The names that a value refers to, each once, in the order in which they first occur. -/
def references (value : Text) : List Text := (referencedFrom 0 value).eraseDups

namespace Variable

/-- The kind of the variable's value. -/
def kind (v : Variable) : ValueKind := .of v.value

/-- The custom property that takes the variable's place. -/
def customProperty (v : Variable) : Text := Style.customProperty v.name

/-- The names that the variable's value refers to. -/
def dependencies (v : Variable) : List Text := references v.value

/-- The variable that a first declaration makes. -/
def ofDeclaration (content : Text) (d : Declaration) : Variable :=
  ⟨d.name, d.value, lineNumberAt content d.span.start, d.isDefault⟩

/-- What is known after some declarations of a text. -/
structure Folded where
  vars : List Variable := []
  /-- The declarations that gave a variable a new value. -/
  redeclared : List Declaration := []

/-- Take one more declaration into account. A default does not change a variable that exists. -/
def Folded.declare (content : Text) (f : Folded) (d : Declaration) : Folded :=
  if f.vars.any (·.name = d.name) then
    if d.isDefault then f
    else
      ⟨f.vars.map fun v => if v.name = d.name then { v with value := d.value } else v,
        f.redeclared ++ [d]⟩
  else { f with vars := f.vars ++ [ofDeclaration content d] }

/-- What the declarations of a text make, the variables in the order of their first declarations. -/
def fold (content : Text) (ds : List Declaration) : Folded := ds.foldl (Folded.declare content) {}

/-- A note about variables. -/
def note (severity : Severity) (message : Text) : Note :=
  ⟨severity, "scss".toList, "variables".toList, message⟩

/-- The warning about a redeclared variable. -/
def redeclaredNote (content : Text) (d : Declaration) : Note :=
  note .warning ('$' :: d.name ++ " redeclared on line ".toList
    ++ Text.ofNat (lineNumberAt content d.span.start) ++ "; the later value wins".toList)

/-- The warnings about names that a variable refers to and that no declaration declares. -/
def undeclaredNotes (vars : List Variable) (v : Variable) : List Note :=
  (v.dependencies.filter fun dep => !vars.any (·.name = dep)).map fun dep =>
    note .warning ('$' :: v.name ++ " depends on undeclared $".toList ++ dep)

/-- What there is to say about the declarations of a text: redeclared names first, then names that are
used and not declared. -/
def Folded.notes (content : Text) (f : Folded) : List Note :=
  f.redeclared.map (redeclaredNote content) ++ f.vars.flatMap (undeclaredNotes f.vars)

/-- The variables of a text, and what there is to say about them. -/
def extract (content : Text) : List Variable × List Note :=
  let f := fold content (Declaration.find content)
  (f.vars, f.notes content)

end Variable

end Flatsheet.Style
