import Flatsheet.Shell.Arithmetic
import Flatsheet.Shell.Stream

/-!
# `Flatsheet.Shell.Condition` — the conditions of `test`

What an argument means depends on those around it: an operator with nothing to work on is a text like any
other.

## Contents

* `Condition.holds`: the condition that arguments express
-/

namespace Flatsheet.Shell.Condition

open Text

/-! ## Operators -/

/-- What an argument is, by its text alone. -/
inductive Kind
  /-- An operator on one argument. -/
  | one
  /-- An operator on two arguments. -/
  | two
  | negation
  | conjunction
  | disjunction
  | opening
  | closing
deriving DecidableEq, Repr

/-- What an argument is by its text alone, if it is an operator. -/
def kind? (t : Text) : Option Kind :=
  let one := ["-r", "-w", "-x", "-e", "-f", "-d", "-c", "-b", "-p", "-u", "-g", "-k", "-s", "-t", "-z",
    "-n", "-h", "-O", "-G", "-L", "-S"]
  let two := ["=", "!=", "<", ">", "-eq", "-ne", "-ge", "-gt", "-le", "-lt", "-nt", "-ot", "-ef"]
  let s := String.ofList t
  if one.contains s then some .one
  else if two.contains s then some .two
  else match s with
    | "!" => some .negation
    | "-a" => some .conjunction
    | "-o" => some .disjunction
    | "(" => some .opening
    | ")" => some .closing
    | _ => none

/-- Why arguments express no condition. -/
inductive Failure
  | message (m : Text)

/-- The number that an operand is. -/
def operand (t : Text) : Except Failure Int :=
  match number? (some 10) t with
  | some n => .ok n
  | none => .error (.message ("Illegal number: ".toList ++ t))

/-- The path leads to the device that swallows everything. -/
def isDevice (t : FileTree) (path : Text) : Bool := (t.locate path).toOption = some World.nullFile

/-- The value of an operator on one argument. -/
def checkOne (t : FileTree) (operator argument : Text) : Except Failure Bool :=
  match String.ofList operator with
  | "-n" => .ok !argument.isEmpty
  | "-z" => .ok argument.isEmpty
  | "-t" => (operand argument).map fun _ => false
  | "-f" => .ok (t.isFile argument && !isDevice t argument)
  | "-d" => .ok (t.isDirectory argument)
  | "-x" => .ok (t.isExecutable argument || t.isDirectory argument)
  | "-s" => .ok (t.isDirectory argument || (t.read argument).toOption.any fun c => !c.isEmpty)
  | "-c" => .ok (isDevice t argument)
  | "-b" => .ok false
  | "-p" => .ok false
  | "-u" => .ok false
  | "-g" => .ok false
  | "-k" => .ok false
  | "-S" => .ok false
  | "-h" => .ok false
  | "-L" => .ok false
  | _ => .ok (t.present argument)

/-- The value of an operator on two arguments. -/
def checkTwo (t : FileTree) (a operator b : Text) : Except Failure Bool := do
  let numbers (holds : Int → Int → Bool) : Except Failure Bool := do
    return holds (← operand a) (← operand b)
  match String.ofList operator with
  | "=" => return a = b
  | "!=" => return a ≠ b
  | "<" => return a < b
  | ">" => return b < a
  | "-eq" => numbers fun x y => x = y
  | "-ne" => numbers fun x y => x ≠ y
  | "-lt" => numbers fun x y => x < y
  | "-le" => numbers fun x y => x ≤ y
  | "-gt" => numbers fun x y => y < x
  | "-ge" => numbers fun x y => y ≤ x
  | "-ef" => return t.present a && t.present b && (t.locate a).toOption = (t.locate b).toOption
  | _ => return false

/-! ## Expressions -/

/-- What the first one of some arguments is in its place. An operator on one argument needs one, and it
is none itself between two others. -/
def role? : List Text → Option Kind
  | [] => none
  | a :: r =>
    match kind? a with
    | some .one =>
      match r with
      | [] => none
      | [_] => some .one
      | b :: _ :: _ => if kind? b = some .two then none else some .one
    | some .opening => if r.isEmpty then none else some .opening
    | k => k

/-- A message about an operator. -/
def misplaced (operator : Text) (m : String) : Failure :=
  .message (if operator.isEmpty then m.toList else operator ++ ": ".toList ++ m.toList)

mutual

/-- Disjunction: the value, and the arguments from the last one on that was used. The role of the first
argument is given. -/
def disjunction (t : FileTree) : Nat → Option Kind → List Text → Except Failure (Bool × List Text)
  | 0, _, _ => .error (.message [])
  | n + 1, k, as => do
    let (a, rest) ← conjunction t n k as
    if role? rest.tail = some .disjunction then
      let next := rest.drop 2
      let (b, rest) ← disjunction t n (role? next) next
      return (a || b, rest)
    else return (a, rest)

/-- Conjunction. -/
def conjunction (t : FileTree) : Nat → Option Kind → List Text → Except Failure (Bool × List Text)
  | 0, _, _ => .error (.message [])
  | n + 1, k, as => do
    let (a, rest) ← negation t n k as
    if role? rest.tail = some .conjunction then
      let next := rest.drop 2
      let (b, rest) ← conjunction t n (role? next) next
      return (a && b, rest)
    else return (a, rest)

/-- Negation. -/
def negation (t : FileTree) : Nat → Option Kind → List Text → Except Failure (Bool × List Text)
  | 0, _, _ => .error (.message [])
  | n + 1, k, as => do
    if k = some .negation then
      if as.tail.isEmpty then return (true, as)
      else
        let (a, rest) ← negation t n (role? as.tail) as.tail
        return (!a, rest)
    else primary t n k as

/-- A text, an operator with its arguments, or an expression in parentheses. -/
def primary (t : FileTree) : Nat → Option Kind → List Text → Except Failure (Bool × List Text)
  | 0, _, _ => .error (.message [])
  | n + 1, k, as => do
    match k, as with
    | _, [] => return (false, [])
    | some .opening, _ :: rest =>
      if role? rest = some .closing then return (false, rest)
      else
        let (a, rest) ← disjunction t n (role? rest) rest
        if role? rest.tail = some .closing then return (a, rest.tail)
        else throw (.message "closing paren expected".toList)
    | some .one, [o] => throw (misplaced o "argument expected")
    | some .one, o :: a :: rest => return (← checkOne t o a, a :: rest)
    | _, [a] => return (!a.isEmpty, [a])
    | _, a :: o :: rest =>
      if role? (o :: rest) = some .two then
        match rest with
        | [] => throw (misplaced o "argument expected")
        | b :: _ => return (← checkTwo t a o b, rest)
      else return (!a.isEmpty, a :: o :: rest)

end

/-- The condition that arguments express whose first one has a role. -/
def expression (t : FileTree) (k : Option Kind) (as : List Text) : Except Failure Bool := do
  let (a, rest) ← disjunction t (4 * as.length + 8) k as
  match rest with
  | x :: _ :: _ => throw (misplaced x "unexpected operator")
  | _ => return a

/-- Whether the condition that arguments express is negated, the role of its first argument, and its
arguments. Three or four arguments mean what they look like, whatever the operators among them are. Signs of
negation in front of them count as one. -/
def meaning : List Text → Bool × Option Kind × List Text
  | [a, b, c] =>
    if kind? b = some .two then (false, none, [a, b, c])
    else if a = ['('] && c = [')'] then (false, role? [b], [b])
    else if a = ['!'] then (true, role? [b, c], [b, c])
    else (false, role? [a, b, c], [a, b, c])
  | [a, b, c, d] =>
    if a = ['('] && d = [')'] then (false, role? [b, c], [b, c])
    else if a = ['!'] then (true, (meaning [b, c, d]).2)
    else (false, role? [a, b, c, d], [a, b, c, d])
  | as => (false, role? as, as)
termination_by as => as.length

/-- The condition that arguments express. -/
def holds (t : FileTree) (as : List Text) : Except Failure Bool :=
  if as.isEmpty then .ok false
  else
    let (negated, k, core) := meaning as
    (expression t k core).map (negated != ·)

end Flatsheet.Shell.Condition
