import Flatsheet.Diagnostic

/-!
# `Flatsheet.Check.Issue` — what a check can find wrong with a style sheet
-/

namespace Flatsheet.Check

/-- The kinds of issues. -/
inductive IssueKind
  | unbalancedBraces
  | unterminatedString
  | emptyPropertyName
  | emptyPropertyValue
  | unknownPseudoElement
  | unbalancedParentheses
  | variableRedeclared
  | compilationFailed
deriving DecidableEq, Repr

namespace IssueKind

/-- The word for a kind of issue. -/
def name : IssueKind → Text
  | unbalancedBraces => "unbalanced_braces".toList
  | unterminatedString => "unterminated_string".toList
  | emptyPropertyName => "empty_property_name".toList
  | emptyPropertyValue => "empty_property_value".toList
  | unknownPseudoElement => "unknown_pseudo_element".toList
  | unbalancedParentheses => "unbalanced_parentheses".toList
  | variableRedeclared => "variable_redeclared".toList
  | compilationFailed => "compilation_failed".toList

/-- Issues of the kind are errors; those of the other kinds are warnings. -/
def isError : IssueKind → Bool
  | unbalancedBraces | unterminatedString | emptyPropertyName | emptyPropertyValue
  | compilationFailed => true
  | unknownPseudoElement | unbalancedParentheses | variableRedeclared => false

end IssueKind

/-- One thing that is wrong. -/
structure Issue where
  kind : IssueKind
  message : Text
  line : Option Nat := none
  snippet : Option Text := none
deriving DecidableEq, Repr

namespace Issue

/-- The issue makes the sheet invalid. -/
def isError (i : Issue) : Bool := i.kind.isError

/-- An issue as one line, ``error [kind] line 3: message `snippet` ``. -/
def format (i : Issue) : Text :=
  (if i.isError then "error".toList else "warning".toList) ++ " [".toList ++ i.kind.name
    ++ "]".toList
    ++ (match i.line with
        | some n => " line ".toList ++ Text.ofNat n
        | none => [])
    ++ ": ".toList ++ i.message
    ++ (match i.snippet with
        | some s => if s.isEmpty then [] else " \x60".toList ++ s ++ "\x60".toList
        | none => [])

/-- The note that reports an issue. -/
def note (i : Issue) : Note :=
  ⟨if i.isError then .error else .warning, "scss".toList, "validation".toList, i.format⟩

end Issue

end Flatsheet.Check
