import Flatsheet.Text.Span
import Flatsheet.Text.Sweep
import Flatsheet.Style.Value

/-!
# `Flatsheet.Style.Declaration` — finding variable declarations

A variable declaration is `$name: value;` at the start of a statement, outside the bodies of mixins and
functions. The scanner reads the code mask from left to right. It keeps the stack of open blocks and,
for the statement it is in, whether anything of it has been read and which kind of block a brace would
open.

## Contents

* `Declaration`: one declaration with its place in the text
* `valueLength?`: how far the value of a declaration reaches
* `splitFlags`: the value without `!default` and `!global`
* `Block`, `Declaration.Scan`, `Declaration.find`
-/

namespace Flatsheet.Style

open Text

/-! ## The parts of a declaration -/

/-- A variable declaration. The span begins at the dollar sign and includes the semicolon. -/
structure Declaration where
  span : Span
  name : Text
  /-- The trimmed value, without flags. -/
  value : Text
  isDefault : Bool
deriving DecidableEq, Repr

/-- The number of bytes of a value before the semicolon that ends it. `parens` counts open parentheses,
and goes below zero if more are closed than opened; `braces` counts the open braces of an interpolation,
inside which nothing else counts. A brace outside parentheses and interpolation, or the end of the text,
means that there is no such value. -/
def valueLength? (parens : Int) (braces : Nat) (hash : Bool) : Text → Option Nat
  | [] => none
  | c :: r =>
    if 0 < braces || hash then
      if c = '{' then (valueLength? parens (braces + 1) false r).map (· + 1)
      else if c = '}' then (valueLength? parens (braces - 1) false r).map (· + 1)
      else (valueLength? parens braces false r).map (· + 1)
    else if c = '(' then (valueLength? (parens + 1) 0 false r).map (· + 1)
    else if c = ')' then (valueLength? (parens - 1) 0 false r).map (· + 1)
    else if c = '#' && r.head? = some '{' then (valueLength? parens 0 true r).map (· + 1)
    else if c = ';' && parens ≤ 0 then some 0
    else if (c = '{' || c = '}') && parens ≤ 0 then none
    else (valueLength? parens 0 false r).map (· + 1)

theorem length_trimLeft_le (t : Text) : (trimLeft t).length ≤ t.length := by
  unfold trimLeft; exact (List.dropWhile_sublist _).length_le

theorem length_trimRight_le (t : Text) : (trimRight t).length ≤ t.length := by
  unfold trimRight
  rw [List.length_reverse]
  exact Nat.le_trans (List.dropWhile_sublist _).length_le (by simp)

theorem length_trim_le (t : Text) : (trim t).length ≤ t.length :=
  Nat.le_trans (length_trimRight_le _) (length_trimLeft_le _)

/-- The trimmed value without the flags at its end, and whether `!default` is among them. Flags may be
written in any case. -/
def splitFlags (value : Text) : Text × Bool :=
  let t := trim value
  if h : t = [] then ([], false)
  else if endsWith (lower t) "!default".toList then ((splitFlags (t.take (t.length - 8))).1, true)
  else if endsWith (lower t) "!global".toList then splitFlags (t.take (t.length - 7))
  else (t, false)
termination_by value.length
decreasing_by
  all_goals
    have h1 := length_trim_le value
    have h2 : 0 < (trim value).length := List.length_pos_iff.mpr h
    rw [List.length_take]
    omega

/-- The declaration that starts at a place of the code mask of `t`, where a dollar sign stands. -/
def Declaration.at? (t : Text) (c : Cursor) : Option Declaration :=
  let nameEnd := (c.advance 1).skip isIdent
  let colon := nameEnd.skip isBlank
  if nameEnd.pos = c.pos + 1 || colon.byte? ≠ some ':' then none
  else
    let start := colon.pos + 1
    (valueLength? 0 0 false (colon.advance 1).rest).map fun n =>
      let (value, isDefault) := splitFlags (slice t start (start + n))
      ⟨⟨c.pos, start + n + 1⟩, slice t (c.pos + 1) nameEnd.pos, value, isDefault⟩

/-! ## The scanner -/

/-- What a brace opens. -/
inductive Block
  | rule
  | mixinBody
  | functionBody
  | interpolation
deriving DecidableEq, Repr

/-- The block that a statement beginning with this text opens. -/
def Block.ofHead (t : Text) : Block :=
  if startsWith t "@mixin".toList then .mixinBody
  else if startsWith t "@function".toList then .functionBody
  else .rule

/-- The block belongs to a definition, in which declarations are local. -/
def Block.isDefinition (b : Block) : Bool := b = .mixinBody || b = .functionBody

/-- What the declaration scanner knows at a place. -/
structure Declaration.Scan where
  /-- The open blocks, innermost first. -/
  blocks : List Block := []
  /-- The block that a brace would open, once the statement has begun. -/
  statement : Option Block := none
deriving DecidableEq, Repr

/-- A declaration may start here. -/
def Declaration.Scan.admits (s : Declaration.Scan) : Bool :=
  s.statement.isNone && !s.blocks.any Block.isDefinition

/-- The state after the byte `c`, which follows `before` and is the first byte of `here`. -/
def Declaration.Scan.next (s : Declaration.Scan) (before : Option Char) (here : Text) (c : Char) :
    Declaration.Scan :=
  if isBlank c then s
  else
    let kind := s.statement.getD (Block.ofHead here)
    if c = '{' then
      if before = some '#' then ⟨.interpolation :: s.blocks, some kind⟩
      else ⟨kind :: s.blocks, none⟩
    else if c = '}' then
      if s.blocks.head? = some .interpolation then ⟨s.blocks.tail, some kind⟩
      else ⟨s.blocks.tail, none⟩
    else if c = ';' then ⟨s.blocks, none⟩
    else ⟨s.blocks, some kind⟩

/-- The declarations of `t` from a place of its code mask on. The next `wait` bytes belong to the last
declaration found. -/
def Declaration.findFrom (t : Text) (s : Declaration.Scan) (seen : Text) (pos wait : Nat) :
    Text → List Declaration
  | [] => []
  | c :: r =>
    if 0 < wait then findFrom t s (c :: seen) (pos + 1) (wait - 1) r
    else
      let found := if s.admits && c = '$' then Declaration.at? t ⟨seen, pos, c :: r⟩ else none
      match found with
      | some d =>
        d :: findFrom t { s with statement := none } (c :: seen) (pos + 1) (d.span.stop - pos - 1) r
      | none => findFrom t (s.next seen.head? (c :: r) c) (c :: seen) (pos + 1) 0 r

/-- The variable declarations of a text, in order. -/
def Declaration.find (t : Text) : List Declaration := findFrom t {} [] 0 0 (codeMask t)

end Flatsheet.Style
