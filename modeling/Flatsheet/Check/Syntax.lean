import Flatsheet.Check.Issue
import Flatsheet.Style.Declaration

/-!
# `Flatsheet.Check.Syntax` — the syntactic checks

## Contents

* `structuralMask`: the mask in which braces are block braces
* `braceIssues`, `stringIssues`, `statementIssues`, `pseudoElementIssues`, `redeclarationIssues`
* `syntaxIssues`: all of them
-/

namespace Flatsheet.Check

open Text Style

/-! ## Braces -/

/-- The code mask with interpolation blanked as well, so that each brace opens or closes a block. -/
def structuralMask (t : Text) : Text :=
  let code := codeMask t
  let spans := interpolations code
  code.zipIdx.map fun (c, i) => if c ≠ '\n' && spans.any (·.covers i) then ' ' else c

/-- The offset of the first closing brace without an open partner, at brace depth `depth` and offset
`pos` at first. -/
def firstExcess? (depth pos : Nat) : Text → Option Nat
  | [] => none
  | c :: r =>
    if c = '{' then firstExcess? (depth + 1) (pos + 1) r
    else if c = '}' then
      if depth = 0 then some pos else firstExcess? (depth - 1) (pos + 1) r
    else firstExcess? depth (pos + 1) r

/-- Braces that do not pair up. -/
def braceIssues (t : Text) : List Issue :=
  let code := structuralMask t
  let opening := code.count '{'
  let closing := code.count '}'
  let excess := firstExcess? 0 0 code
  if opening ≠ closing || excess.isSome then
    [{ kind := .unbalancedBraces
       message := "Mismatched braces: ".toList ++ Text.ofNat opening ++ " opening, ".toList
         ++ Text.ofNat closing ++ " closing".toList
       line := excess.map (lineNumberAt t) }]
  else []

/-! ## Strings -/

/-- The quote that is open at the end of a line. A backslash inside a string protects the next byte. -/
def openQuote (quote : Option Char) (escaped : Bool) : Text → Option Char
  | [] => quote
  | c :: r =>
    match quote with
    | some q =>
      if escaped then openQuote quote false r
      else if c = '\\' then openQuote quote true r
      else if c = q then openQuote none false r
      else openQuote quote false r
    | none => openQuote (if c = '"' || c = '\'' then some c else none) false r

/-- Lines that end inside a string. -/
def stringIssues (t : Text) : List Issue :=
  (lines (commentMask t)).zipIdx.filterMap fun (line, i) =>
    if (openQuote none false line).isSome then
      some { kind := .unterminatedString, message := "Unterminated string".toList,
             line := some (i + 1), snippet := some (trim line) }
    else none

/-! ## Statements -/

/-- A stretch of the structural mask up to a semicolon, a brace or the end of the text. -/
structure Statement where
  span : Span
  /-- What ends the statement. The end of the text counts as a semicolon. -/
  terminator : Char
  /-- The number of open blocks around the statement. -/
  depth : Nat
deriving DecidableEq, Repr

/-- The statements of a structural mask from offset `pos` on; the first of them began at `start`. -/
def statementsFrom (start pos depth : Nat) : Text → List Statement
  | [] => [⟨⟨start, pos⟩, ';', depth⟩]
  | c :: r =>
    if c = ';' then ⟨⟨start, pos⟩, c, depth⟩ :: statementsFrom (pos + 1) (pos + 1) depth r
    else if c = '{' then ⟨⟨start, pos⟩, c, depth⟩ :: statementsFrom (pos + 1) (pos + 1) (depth + 1) r
    else if c = '}' then ⟨⟨start, pos⟩, c, depth⟩ :: statementsFrom (pos + 1) (pos + 1) (depth - 1) r
    else statementsFrom start (pos + 1) depth r

/-- The text before the first colon and the text after it. -/
def splitAtColon? (t : Text) : Option (Text × Text) :=
  match t.dropWhile (· ≠ ':') with
  | [] => none
  | _ :: value => some (t.takeWhile (· ≠ ':'), value)

/-- What is wrong with one statement of the text `t`, whose structural mask is `code`. -/
def Statement.issues (t code : Text) (s : Statement) : List Issue :=
  let segment := slice code s.span.start s.span.stop
  let body := trim segment
  let line := some (lineNumberAt t (s.span.start + spanLength isBlank segment))
  let raw := some (trim (slice t s.span.start s.span.stop))
  let parentheses : List Issue :=
    if body.count '(' ≠ body.count ')' then
      [⟨.unbalancedParentheses, "Unbalanced parentheses".toList, line, raw⟩]
    else []
  let isDeclaration := 0 < s.depth && s.terminator ≠ '{'
    && !(body.head?.any fun c => c = '@' || c = '&' || c = '%')
  let declaration : List Issue :=
    match if isDeclaration then splitAtColon? body else none with
    | none => []
    | some (name, value) =>
      if (trim name).isEmpty then
        [⟨.emptyPropertyName, "Empty property name".toList, line, raw⟩]
      else if (trim value).isEmpty then
        [⟨.emptyPropertyValue, "Empty value for '".toList ++ trim name ++ "'".toList, line, raw⟩]
      else []
  if body.isEmpty then [] else parentheses ++ declaration

/-- Unbalanced parentheses, and declarations without a name or without a value. -/
def statementIssues (t : Text) : List Issue :=
  let code := structuralMask t
  (statementsFrom 0 0 0 code).flatMap (Statement.issues t code)

/-! ## Pseudo-elements -/

/-- The known pseudo-elements. -/
def pseudoElements : List Text :=
  ["before", "after", "first-line", "first-letter", "selection", "placeholder", "marker",
    "backdrop"].map String.toList

/-- Looks for a pseudo-element; gives its offset and its name in small letters. -/
def lookPseudoElement (c : Cursor) : Sighting (Nat × Text) :=
  if startsWith c.rest "::".toList then
    let name := (c.rest.drop 2).takeWhile isIdent
    .found (c.pos, lower name) (2 + name.length)
  else .nothing

/-- Pseudo-elements that are neither known nor of a browser. -/
def pseudoElementIssues (t : Text) : List Issue :=
  (sweep lookPseudoElement (structuralMask t)).filterMap fun (pos, name) =>
    if name.isEmpty || startsWith name "-webkit-".toList || startsWith name "-moz-".toList
      || pseudoElements.contains name then none
    else some ⟨.unknownPseudoElement, "Unknown pseudo-element '::".toList ++ name ++ "'".toList,
      some (lineNumberAt t pos), none⟩

/-! ## Redeclarations -/

/-- The declarations, other than defaults, of a name that is declared before them or is among
`names`. -/
def repeated (names : List Text) : List Declaration → List Declaration
  | [] => []
  | d :: ds =>
    if names.contains d.name then
      if d.isDefault then repeated names ds else d :: repeated names ds
    else repeated (d.name :: names) ds

/-- Variables that are given a second value. -/
def redeclarationIssues (t : Text) : List Issue :=
  (repeated [] (Declaration.find t)).map fun d =>
    ⟨.variableRedeclared, '$' :: d.name ++ " is declared more than once".toList,
      some (lineNumberAt t d.span.start), none⟩

/-! ## All checks -/

/-- Everything that is wrong with the syntax of a text. -/
def syntaxIssues (t : Text) : List Issue :=
  braceIssues t ++ stringIssues t ++ statementIssues t ++ pseudoElementIssues t
    ++ redeclarationIssues t

end Flatsheet.Check
