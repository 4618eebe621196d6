import Flatsheet.Shell.Condition
import Flatsheet.Shell.Expansion
import Flatsheet.Shell.Format

/-!
# `Flatsheet.Shell.Builtin.Basic` — builtins that write, compare and leave

Each builtin of a shell is an action on a session, given its arguments.

## Contents

* `readOptions`: the options before arguments
* `output`, `warn`: what a builtin writes
* `echo`, `printf`, `test`
* `breakLoop`, `continueLoop`, `returnFrom`, `exit`, `shift`
-/

namespace Flatsheet.Shell.Builtin

open Text

/-! ## Arguments -/

/-- The options before arguments, with what those get that take an argument. A letter with a colon takes
one. -/
def readOptions (allowed : Text) : Nat → List Text → Action (List (Char × Text) × List Text)
  | 0, as => return ([], as)
  | _ + 1, [] => return ([], [])
  | n + 1, a :: as => do
    match a with
    | ['-', '-'] => return ([], as)
    | '-' :: c :: r =>
      let behind := (allowed.dropWhile (· ≠ c)).tail
      if c = ':' || !allowed.contains c then fail ("Illegal option -".toList ++ [c])
      else if behind.head? = some ':' then
        match r, as with
        | [], [] => fail ("No arg for -".toList ++ c :: " option".toList)
        | [], b :: bs =>
          let (os, rest) ← readOptions allowed n bs
          return ((c, b) :: os, rest)
        | _, _ =>
          let (os, rest) ← readOptions allowed n as
          return ((c, r) :: os, rest)
      else
        let (os, rest) ← readOptions allowed n (if r.isEmpty then as else ('-' :: r) :: as)
        return ((c, []) :: os, rest)
    | _ => return ([], a :: as)

/-- The options before arguments. -/
def options (allowed : String) (as : List Text) : Action (List (Char × Text) × List Text) :=
  readOptions allowed.toList (as.flatten.length + as.length + 1) as

/-- The arguments of a builtin without options. -/
def operands (as : List Text) : Action (List Text) := return (← options "" as).2

/-- The number that an argument is, with blanks around it. -/
def numberOf (t : Text) : Action Nat :=
  match number? (some 10) t with
  | some n => if 0 ≤ n && n < Nat.pow 2 31 then return n.toNat else wrong
  | none => wrong
where
  wrong : Action Nat := fail ("Illegal number: ".toList ++ t)

/-- Writes the output of a builtin, which succeeds if that is possible. -/
def output (t : Text) : Action Unit := do
  if ← write 1 t then setStatus 0
  else
    let s ← get
    complain ((s.title.getD []) ++ ": I/O error".toList)
    setStatus 1

/-- Writes a message of a builtin that has failed a little. -/
def warn (t : Text) : Action Unit := do
  let _ ← write 2 (t ++ ['\n'])
  setStatus 1

/-- A text in single quotes, with the single quotes in it in double ones. -/
def quotedText (t : Text) : Text :=
  let rec go : Nat → Text → Text
    | 0, _ => []
    | _ + 1, [] => []
    | n + 1, t =>
      let plain := t.takeWhile (· ≠ '\'')
      let rest := t.drop plain.length
      let quotes := rest.takeWhile (· = '\'')
      let shown : Text := if plain.isEmpty then [] else '\'' :: plain ++ ['\'']
      let marks : Text := if quotes.isEmpty then [] else '"' :: quotes ++ ['"']
      shown ++ marks ++ go n (rest.drop quotes.length)
  if t.isEmpty then ['\'', '\''] else go (t.length + 1) t

/-! ## Output and conditions -/

/-- `echo`. -/
def echo (as : List Text) : Action Unit := output (echoed as)

/-- `printf`. -/
def printf (as : List Text) : Action Unit := do
  match ← operands as with
  | [] => fail "usage: printf format [arg ...]".toList
  | format :: as =>
    let p := printed format as
    p.messages.forM complain
    output p.output
    if p.failed then
      setStatus 2
      throw .failed
    else if !p.messages.isEmpty then setStatus 1

/-- `test`. -/
def test (as : List Text) : Action Unit := do
  let s ← get
  match Condition.holds s.world.tree as with
  | .ok holds => setStatus (if holds then 0 else 1)
  | .error (.message m) => fail m

/-- `test` with a bracket behind its arguments. -/
def bracket (as : List Text) : Action Unit :=
  if as.getLast? = some [']'] then test as.dropLast else fail "missing ]".toList

/-! ## Control -/

/-- The number of loops to leave, if there are any. -/
def levels (as : List Text) : Action Nat := do
  match as with
  | [] => return min 1 (← get).loops
  | a :: _ =>
    let n ← numberOf a
    if n = 0 then fail ("Illegal number: ".toList ++ a) else return min n (← get).loops

/-- `break`. -/
def breakLoop (as : List Text) : Action Unit := do
  let n ← levels as
  setStatus 0
  if 0 < n then throw (.broken n)

/-- `continue`. -/
def continueLoop (as : List Text) : Action Unit := do
  let n ← levels as
  setStatus 0
  if 0 < n then throw (.continued n)

/-- `return`. -/
def returnFrom (as : List Text) : Action Unit := do
  match as with
  | [] => throw .returned
  | a :: _ =>
    setStatus (← numberOf a)
    throw .returned

/-- `exit`. -/
def exit (as : List Text) : Action Unit := do
  match as with
  | [] => throw .left
  | a :: _ =>
    let n ← numberOf a
    modify fun s => { s with status := n, leaving := some n }
    throw .left

/-- `shift`. -/
def shift (as : List Text) : Action Unit := do
  let n ← match as with
    | [] => pure 1
    | a :: _ => numberOf a
  let s ← get
  if s.arguments.length < n then fail "can't shift that many".toList
  else set { s with arguments := s.arguments.drop n, status := 0, optionPlace := 0 }

end Flatsheet.Shell.Builtin
