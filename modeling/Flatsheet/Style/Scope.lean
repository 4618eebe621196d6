import Flatsheet.Style.Value

/-!
# `Flatsheet.Style.Scope` — where the lines of a style sheet stand

References to variables are converted line by line. A line inside the body of a mixin or a function, or
inside a map literal, stays as it is; so do whole directive and placeholder statements at the start of a
line. `Tracker` follows the lines of a code mask and knows where the next line stands.

## Contents

* `directiveEnd?`: where a directive statement ends
* `Scope`, `Tracker`, `Tracker.convertFrom?`, `Tracker.advance`
-/

namespace Flatsheet.Style

open Text

/-! ## Directive statements -/

/-- The number of bytes up to the end of a statement: the semicolon that ends it, or the brace that
closes its block; a closing brace that the statement did not open is not part of it. Parentheses hide
what they enclose; an interpolation reaches from `#{` to the next closing brace. -/
def directiveLength? (parens depth : Nat) (interpolated : Bool) : Text → Option Nat
  | [] => none
  | c :: r =>
    if interpolated then
      (directiveLength? parens depth (c ≠ '}') r).map (· + 1)
    else if c = '#' && r.head? = some '{' then (directiveLength? parens depth true r).map (· + 1)
    else if c = '(' then (directiveLength? (parens + 1) depth false r).map (· + 1)
    else if c = ')' then (directiveLength? (parens - 1) depth false r).map (· + 1)
    else if 0 < parens then (directiveLength? parens depth false r).map (· + 1)
    else if c = ';' && depth = 0 then some 1
    else if c = '{' then (directiveLength? parens (depth + 1) false r).map (· + 1)
    else if c = '}' then
      if depth = 0 then some 0
      else if depth = 1 then some 1
      else (directiveLength? parens (depth - 1) false r).map (· + 1)
    else (directiveLength? parens depth false r).map (· + 1)

/-- The offset after the directive or placeholder statement that starts at an offset of a code mask;
nothing if the statement runs past the end. -/
def directiveEnd? (code : Text) (start : Nat) : Option Nat :=
  (directiveLength? 0 0 false (code.drop start)).map (· + start)

/-! ## Scopes -/

/-- What a line stands in. -/
inductive Scope
  /-- Outside definitions and map literals. -/
  | stylesheet
  /-- The body of a mixin, or of a function, that was opened at brace depth `entry`; the brace that
  opens the body may still be awaited. -/
  | definition (isFunction : Bool) (entry : Nat) (awaited : Bool)
  /-- A map literal with so many open parentheses. -/
  | mapLiteral (parens : Nat)
deriving DecidableEq, Repr

/-- Where a line stands, and how many braces are open before it. -/
structure Tracker where
  scope : Scope := .stylesheet
  depth : Nat := 0
deriving DecidableEq, Repr

/-- The offset of the first byte of a line, whose first byte has offset `pos`, that belongs to no
directive or placeholder statement; nothing if such a statement runs past the line. -/
def statementsEnd? (pos : Nat) (line : Text) : Option Nat :=
  match _h : trimLeft line with
  | [] => some (pos + line.length)
  | c :: r =>
    let here := pos + spanLength isBlank line
    if c ≠ '@' && c ≠ '%' then some here
    else match directiveLength? 0 0 false (c :: r) with
      | none => none
      | some n => statementsEnd? (here + 1 + (n - 1)) (r.drop (n - 1))
termination_by line.length
decreasing_by
  have h1 : (trimLeft line).length ≤ line.length := (List.dropWhile_sublist _).length_le
  rw [_h, List.length_cons] at h1
  rw [List.length_drop]
  omega

namespace Tracker

/-- The offset from which the references of a line of the code mask may be converted; nothing if the
whole line stays as it is. -/
def convertFrom? (t : Tracker) (line : Text) : Option Nat :=
  if t.scope ≠ .stylesheet then none
  else if (trim line).isEmpty then some 0
  else if callsMapHelper (trim line) || opensMapLiteral (trim line) then none
  else statementsEnd? 0 line

/-- No reference of the line may be converted. -/
def skips (t : Tracker) (line : Text) : Bool :=
  match t.convertFrom? line with
  | none => true
  | some n => line.length ≤ n

/-- The tracker after a line of the code mask. -/
def advance (t : Tracker) (line : Text) : Tracker :=
  let code := trim line
  let opens := code.count '{'
  let depth := t.depth + opens - code.count '}'
  match t.scope with
  | .stylesheet =>
    let isMixin := startsWith code "@mixin".toList
    if (isMixin || startsWith code "@function".toList) && (directiveEnd? code 0).isNone then
      if t.depth < depth then ⟨.definition (!isMixin) t.depth false, depth⟩
      else if opens = 0 then ⟨.definition (!isMixin) t.depth true, depth⟩
      else ⟨.stylesheet, depth⟩
    else if opensMapLiteral code && code.count ')' < code.count '(' then
      ⟨.mapLiteral (code.count '(' - code.count ')'), depth⟩
    else ⟨.stylesheet, depth⟩
  | .definition isFunction entry awaited =>
    if awaited && opens = 0 then ⟨.definition isFunction entry true, depth⟩
    else if depth ≤ entry then ⟨.stylesheet, depth⟩
    else ⟨.definition isFunction entry false, depth⟩
  | .mapLiteral parens =>
    let parens := parens + code.count '(' - code.count ')'
    ⟨if parens = 0 then .stylesheet else .mapLiteral parens, depth⟩

end Tracker

end Flatsheet.Style
