import Flatsheet.Shell.Word

/-!
# `Flatsheet.Shell.Arithmetic` — calculations in shell scripts

Numbers have 64 bits and a sign, and results that need more are cut to them. What decides between two
operands also decides whether the assignments in the other one happen.

## Contents

* `readInteger`: the number at the front of a text, as `number?` and `digits?` require it
* `calculate`: the value of an expression, and what it assigns
-/

namespace Flatsheet.Shell

open Text

/-! ## Numbers -/

/-- The number of 64 bits with a sign that has the same lower bits. -/
def wrapped (n : Int) : Int := n.bmod (Nat.pow 2 64)

/-- The largest number. -/
def largest : Int := Nat.pow 2 63 - 1

/-- The digit that a byte is, at most 35. -/
def digitValue? (c : Char) : Option Nat :=
  if c.isDigit then some (c.toNat - 48)
  else if 'a' ≤ c && c ≤ 'z' then some (c.toNat - 87)
  else if 'A' ≤ c && c ≤ 'Z' then some (c.toNat - 55)
  else none

/-- The bytes that are digits to a base. -/
def isDigitTo (base : Nat) (c : Char) : Bool := (digitValue? c).any fun d => d < base

/-- The value of digits to a base. -/
def valueTo (base : Nat) (digits : Text) : Nat :=
  digits.foldl (fun n c => base * n + (digitValue? c).getD 0) 0

/-- The base of a number, and the number without the mark of its base. -/
def splitBase (t : Text) : Nat × Text :=
  match t with
  | '0' :: x :: d :: r =>
    if (x = 'x' || x = 'X') && isDigitTo 16 d then (16, d :: r) else (8, t)
  | '0' :: _ => (8, t)
  | _ => (10, t)

/-- The number at the front of a text, behind blanks and a sign, and what follows it, if there is one.
Without a base the number tells its own. -/
def readInteger (base : Option Nat) (t : Text) : Option (Int × Text) :=
  let t := trimLeft t
  let (negative, unsigned) := match t with
    | '-' :: r => (true, r)
    | '+' :: r => (false, r)
    | _ => (false, t)
  let (base, digits) := match base with
    | some b => (b, unsigned)
    | none => splitBase unsigned
  let value := digits.takeWhile (isDigitTo base)
  if value.isEmpty then none
  else some (if negative then -(valueTo base value : Int) else valueTo base value,
    digits.drop value.length)

/-- The number fits into 64 bits. -/
def fits (n : Int) : Bool := -largest - 1 ≤ n && n ≤ largest

/-- The number that a whole text is, with blanks around it. An empty text is zero if the number tells its
own base. -/
def number? (base : Option Nat) (t : Text) : Option Int :=
  match readInteger base t with
  | some (n, rest) => if (trimLeft rest).isEmpty && fits n then some n else none
  | none => if base.isNone && (trimLeft t).isEmpty then some 0 else none

/-- The number that the whole text of a few digits is. -/
def digits? (t : Text) : Option Nat :=
  if t.isEmpty || !t.all Char.isDigit || Nat.pow 2 31 ≤ valueTo 10 t then none else some (valueTo 10 t)

/-! ## Expressions -/

/-- A token of an expression. -/
inductive Term
  | number (n : Int)
  | name (t : Text)
  | sign (t : Text)
  | wrong
deriving DecidableEq, Repr

/-- The signs, a longer one before its beginnings. -/
def signs : List Text :=
  ["<<=", ">>=", "<<", ">>", "<=", ">=", "==", "!=", "&&", "||", "+=", "-=", "*=", "/=", "%=", "&=",
    "|=", "^=", "=", "<", ">", "!", "~", "+", "-", "*", "/", "%", "&", "|", "^", "?", ":", "(",
    ")"].map String.toList

/-- The tokens of an expression. -/
def terms : Nat → Text → List Term
  | 0, _ => []
  | _ + 1, [] => []
  | n + 1, c :: r =>
    if isSpaceOrTab c || c = '\n' then terms n r
    else if c.isDigit then
      match readInteger none (c :: r) with
      | some (v, rest) => .number (min v largest) :: terms n rest
      | none => [.wrong]
    else if isNameStart c then
      let name := (c :: r).takeWhile isNameByte
      .name name :: terms n ((c :: r).drop name.length)
    else match signs.find? (startsWith (c :: r)) with
      | some o => .sign o :: terms n ((c :: r).drop o.length)
      | none => [.wrong]

/-- The rank of an operator with two operands; operators of a lower rank come first. -/
def rank? (o : Text) : Option Nat :=
  [("*", 0), ("/", 0), ("%", 0), ("+", 1), ("-", 1), ("<<", 2), (">>", 2), ("<", 3), ("<=", 3),
    (">", 3), (">=", 3), ("==", 4), ("!=", 4), ("&", 5), ("^", 6), ("|", 7)].findSome? fun p =>
    if p.1.toList = o then some p.2 else none

/-- A number that says whether something holds. -/
def truth (b : Bool) : Int := if b then 1 else 0

/-- The value of an operator with two operands, unless it divides by zero. -/
def operate? (o : Text) (a b : Int) : Option Int :=
  let bits (f : BitVec 64 → BitVec 64 → BitVec 64) : Option Int :=
    some (f (BitVec.ofInt 64 a) (BitVec.ofInt 64 b)).toInt
  match String.ofList o with
  | "*" => some (wrapped (a * b))
  | "/" => if b = 0 then none else some (wrapped (a.tdiv b))
  | "%" => if b = 0 then none else some (wrapped (a.tmod b))
  | "+" => some (wrapped (a + b))
  | "-" => some (wrapped (a - b))
  | "<<" => bits fun x y => x <<< (y.toNat % 64)
  | ">>" => bits fun x y => x.sshiftRight (y.toNat % 64)
  | "<" => some (truth (a < b))
  | "<=" => some (truth (a ≤ b))
  | ">" => some (truth (b < a))
  | ">=" => some (truth (b ≤ a))
  | "==" => some (truth (a = b))
  | "!=" => some (truth (a ≠ b))
  | "&" => bits (· &&& ·)
  | "^" => bits (· ^^^ ·)
  | _ => bits (· ||| ·)

/-- Why an expression has no value. -/
inductive CalculationError
  | malformed (message : String)
  | notANumber (value : Text)
  | readOnly (name : Text)

/-- The state of a calculation: what is left of the expression, the values of variables, and the
assignments that have been made, latest first. -/
structure Calculation where
  terms : List Term
  value : Text → Text
  isReadOnly : Text → Bool
  assigned : List (Text × Int) := []

/-- A calculation takes terms from the front or fails. -/
abbrev Calculate := StateT Calculation (Except CalculationError)

/-- The next term, which stays. -/
def nextTerm? : Calculate (Option Term) := return (← get).terms.head?

/-- The next term is taken. -/
def dropTerm : Calculate Unit := modify fun c => { c with terms := c.terms.tail }

/-- The sign is next, and is taken. -/
def acceptSign (o : String) : Calculate Bool := do
  if (← nextTerm?) = some (.sign o.toList) then do dropTerm; return true else return false

/-- The value of a variable. -/
def valueOf (name : Text) : Calculate Int := do
  let c ← get
  match c.assigned.lookup name with
  | some n => return n
  | none =>
    match number? none (c.value name) with
    | some n => return n
    | none => throw (.notANumber (c.value name))

/-- The operator that an assignment applies, nothing if it only assigns. -/
def assigning? (o : Text) : Option Text :=
  if o = ['='] then some []
  else if (rank? o).isNone && o.getLast? = some '=' && (rank? o.dropLast).isSome then some o.dropLast
  else none

/-- The value of an operator in an expression. -/
def applied (o : Text) (a b : Int) : Calculate Int :=
  match operate? o a b with
  | some n => return n
  | none => throw (.malformed "division by zero")

mutual

/-- An assignment or an expression without one. If `idle`, nothing is looked up or assigned. -/
def assignmentAt : Nat → Bool → Calculate Int
  | 0, _ => throw (.malformed "expecting primary")
  | n + 1, idle => do
    match (← get).terms with
    | .name name :: .sign o :: _ =>
      match assigning? o with
      | some o =>
        dropTerm
        dropTerm
        let b ← assignmentAt n idle
        if idle then return b
        else
          let v ← if o.isEmpty then pure b else applied o (← valueOf name) b
          if (← get).isReadOnly name then throw (.readOnly name)
          modify fun c => { c with assigned := (name, v) :: c.assigned }
          return v
      | none => conditionAt n idle
    | _ => conditionAt n idle

/-- An expression that may choose between two others. -/
def conditionAt : Nat → Bool → Calculate Int
  | 0, _ => throw (.malformed "expecting primary")
  | n + 1, idle => do
    let a ← eitherAt n idle
    if ← acceptSign "?" then
      let b ← assignmentAt n (idle || a = 0)
      if !(← acceptSign ":") then throw (.malformed "expecting ':'")
      let c ← conditionAt n (idle || a ≠ 0)
      return if a ≠ 0 then b else c
    else return a

/-- One of two expressions holds. -/
def eitherAt : Nat → Bool → Calculate Int
  | 0, _ => throw (.malformed "expecting primary")
  | n + 1, idle => do
    let a ← bothAt n idle
    if ← acceptSign "||" then
      let b ← eitherAt n (idle || a ≠ 0)
      return truth (a ≠ 0 || b ≠ 0)
    else return a

/-- Two expressions hold. -/
def bothAt : Nat → Bool → Calculate Int
  | 0, _ => throw (.malformed "expecting primary")
  | n + 1, idle => do
    let a ← primaryAt n idle
    let a ← operatorsAt n idle 8 a
    if ← acceptSign "&&" then
      let b ← bothAt n (idle || a = 0)
      return truth (a ≠ 0 && b ≠ 0)
    else return a

/-- The operators of a rank below the limit behind the first operand. -/
def operatorsAt : Nat → Bool → Nat → Int → Calculate Int
  | 0, _, _, _ => throw (.malformed "expecting primary")
  | n + 1, idle, limit, a => do
    match ← nextTerm? with
    | some (.sign o) =>
      match rank? o with
      | some r =>
        if r < limit then
          dropTerm
          let b ← primaryAt n idle
          let b ← operatorsAt n idle r b
          operatorsAt n idle limit (← if idle then pure b else applied o a b)
        else return a
      | none => return a
    | _ => return a

/-- A number, a variable or an expression in parentheses, behind signs of its own. -/
def primaryAt : Nat → Bool → Calculate Int
  | 0, _ => throw (.malformed "expecting primary")
  | n + 1, idle => do
    let t ← nextTerm?
    match t with
    | some (.number v) => do dropTerm; return v
    | some (.name name) => do dropTerm; if idle then return 0 else valueOf name
    | some (.sign o) =>
      if o = ['('] then
        dropTerm
        let v ← assignmentAt n idle
        if !(← acceptSign ")") then throw (.malformed "expecting ')'")
        return v
      else if o = ['+'] then do dropTerm; primaryAt n idle
      else if o = ['-'] then do dropTerm; return wrapped (-(← primaryAt n idle))
      else if o = ['!'] then do dropTerm; return truth ((← primaryAt n idle) = 0)
      else if o = ['~'] then do dropTerm; return -(← primaryAt n idle) - 1
      else throw (.malformed "expecting primary")
    | _ => throw (.malformed "expecting primary")

end

/-- The value of an expression over variables, and the assignments it makes, latest first. -/
def calculate (value : Text → Text) (isReadOnly : Text → Bool) (source : Text) :
    Except CalculationError (Int × List (Text × Int)) := do
  let ts := terms source.length source
  let whole : Calculate Int := do
    let v ← assignmentAt (8 * ts.length + 8) false
    if !(← get).terms.isEmpty then throw (.malformed "expecting EOF")
    return v
  let (v, c) ← whole.run { terms := ts, value, isReadOnly }
  return (v, c.assigned)

/-- The text of a failure, for an expression. -/
def CalculationError.message (source : Text) : CalculationError → Text
  | malformed m => "arithmetic expression: ".toList ++ m.toList ++ ": \"".toList ++ source ++ ['"']
  | notANumber v => "Illegal number: ".toList ++ v
  | readOnly name => name ++ ": is read only".toList

end Flatsheet.Shell
