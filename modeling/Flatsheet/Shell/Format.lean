import Flatsheet.Shell.Fraction

/-!
# `Flatsheet.Shell.Format` — what `echo` and `printf` write

## Contents

* `unescape`: a text with its escapes replaced
* `echoed`: the output of `echo`
* `Printing`, `printed`: the output of `printf`, and what is wrong with its arguments
-/

namespace Flatsheet.Shell

open Text

/-! ## Escapes -/

/-- The byte that a letter after a backslash stands for. -/
def escape? (c : Char) : Option Char :=
  [('n', '\n'), ('t', '\t'), ('r', '\r'), ('\\', '\\'), ('a', '\x07'), ('b', '\x08'), ('e', '\x1b'),
    ('f', '\x0c'), ('v', '\x0b')].lookup c

/-- Up to three octal digits at the front of a text. -/
def octal (t : Text) : Text := (t.take 3).takeWhile (isDigitTo 8)

/-- The byte that a text behind a backslash stands for, and what follows. Without a meaning the backslash
stands for itself. -/
def escaped (t : Text) : Char × Text :=
  let digits := octal t
  if !digits.isEmpty then (Char.ofNat (valueTo 8 digits % 256), t.drop digits.length)
  else match t with
    | c :: r =>
      match escape? c with
      | some d => (d, r)
      | none => ('\\', t)
    | [] => ('\\', t)

/-- A text with its escapes replaced, and whether it goes on after that. An octal number may begin with
an additional zero. -/
def unescape : Nat → Text → Text × Bool
  | 0, t => (t, true)
  | _ + 1, [] => ([], true)
  | n + 1, '\\' :: r =>
    if r.head? = some 'c' then ([], false)
    else
      let r := match r with
        | '0' :: d :: s => if isDigitTo 8 d then d :: s else r
        | _ => r
      let (c, rest) := escaped r
      let (t, more) := unescape n rest
      (c :: t, more)
  | n + 1, c :: r =>
    let (t, more) := unescape n r
    (c :: t, more)

/-- The output of `echo`. -/
def echoed (arguments : List Text) : Text :=
  let quiet := arguments.head? = some "-n".toList
  let arguments := if quiet then arguments.drop 1 else arguments
  let t := List.intercalate [' '] arguments
  let (u, more) := unescape t.length t
  if quiet || !more then u else u ++ ['\n']

/-! ## Conversions -/

/-- How an argument is shown. -/
structure Layout where
  left : Bool := false
  zeros : Bool := false
  plus : Bool := false
  blank : Bool := false
  /-- The base of a number or its point is shown. -/
  marked : Bool := false
  width : Nat := 0
  precision : Option Nat := none

namespace Layout

/-- The layout after a flag. -/
def flag (l : Layout) (c : Char) : Layout :=
  match c with
  | '-' => { l with left := true }
  | '0' => { l with zeros := true }
  | '+' => { l with plus := true }
  | ' ' => { l with blank := true }
  | _ => { l with marked := true }

/-- A text at least as wide as asked for. -/
def pad (l : Layout) (t : Text) : Text :=
  let blanks := List.replicate (l.width - t.length) ' '
  if l.left then t ++ blanks else blanks ++ t

/-- The start of a number and its digits, at least as wide as asked for. -/
def padNumber (l : Layout) (zeros : Bool) (start digits : Text) : Text :=
  if zeros && !l.left then
    start ++ List.replicate (l.width - start.length - digits.length) '0' ++ digits
  else l.pad (start ++ digits)

/-- The sign that is shown for a number. -/
def sign (l : Layout) (negative : Bool) : Text :=
  if negative then ['-'] else if l.plus then ['+'] else if l.blank then [' '] else []

/-- The digits of a whole number, at least as many as asked for. -/
def digits (l : Layout) (digits : Text) : Text :=
  match l.precision with
  | some 0 => if digits = ['0'] then [] else digits
  | some p => List.replicate (p - digits.length) '0' ++ digits
  | none => digits

/-- A whole number with its digits. -/
def whole (l : Layout) (start digits : Text) : Text :=
  l.padNumber (l.zeros && l.precision.isNone) start (l.digits digits)

/-- A text, of which only so many bytes are shown as asked for. -/
def text (l : Layout) (t : Text) : Text :=
  l.pad (match l.precision with
    | some p => t.take p
    | none => t)

/-- A number with a fraction. -/
def fraction (l : Layout) (conversion : Char) (f : Fraction) : Text :=
  let places := l.precision.getD 6
  let mark := if conversion.isUpper then 'E' else 'e'
  match f.special? with
  | some name =>
    let name := if conversion.isUpper then name.map Char.toUpper else name
    l.padNumber false (l.sign f.negative) name
  | none =>
    let sign := l.sign f.negative
    match conversion.toLower with
    | 'f' => l.padNumber l.zeros sign (f.fixed places l.marked)
    | 'e' => l.padNumber l.zeros sign (f.scientific places l.marked mark)
    | 'g' => l.padNumber l.zeros sign (f.general places l.marked mark)
    | _ =>
      let digits := f.hexadecimal l.precision l.marked
      if conversion.isUpper then l.padNumber l.zeros (sign ++ "0X".toList) (digits.map Char.toUpper)
      else l.padNumber l.zeros (sign ++ "0x".toList) digits

/-- A number without a sign, to a base. -/
def unsigned (l : Layout) (conversion : Char) (n : Int) : Text :=
  let n := (n % Nat.pow 2 64).toNat
  match conversion with
  | 'u' => l.whole [] (ofNat n)
  | 'o' =>
    let digits := l.digits (Nat.toDigits 8 n)
    let digits := if l.marked && digits.head? ≠ some '0' then '0' :: digits else digits
    l.padNumber (l.zeros && l.precision.isNone) [] digits
  | 'x' => l.whole (if l.marked && n ≠ 0 then "0x".toList else []) (Nat.toDigits 16 n)
  | _ => l.whole (if l.marked && n ≠ 0 then "0X".toList else [])
      ((Nat.toDigits 16 n).map Char.toUpper)

end Layout

/-! ## Formats -/

/-- What has been printed, the arguments that are left, and the messages on the way. -/
structure Printing where
  output : Text := []
  arguments : List Text
  messages : List Text := []
  /-- Nothing more is printed. -/
  done : Bool := false
  /-- The format is wrong. -/
  failed : Bool := false

namespace Printing

/-- The next argument, which is taken. -/
def take (p : Printing) : Option Text × Printing :=
  (p.arguments.head?, { p with arguments := p.arguments.tail })

/-- More output. -/
def add (p : Printing) (t : Text) : Printing := { p with output := p.output ++ t }

/-- A message about an argument. -/
def warn (p : Printing) (argument : Text) (m : String) : Printing :=
  { p with messages := p.messages ++ [argument ++ ": ".toList ++ m.toList] }

/-- The format is wrong. -/
def fail (p : Printing) (m : Text) : Printing :=
  { p with messages := p.messages ++ [m], failed := true, done := true }

/-- Messages about an argument that is not all a number. -/
def check (p : Printing) (argument rest : Text) (inRange : Bool) : Printing :=
  if !rest.isEmpty then
    p.warn argument (if rest = argument then "expected numeric value" else "not completely converted")
  else if inRange then p
  else p.warn argument "Numerical result out of range"

/-- The number that the next argument is. A quote in front asks for the number of the byte behind it. -/
def takeNumber (p : Printing) (signed : Bool) : Int × Printing :=
  match p.take with
  | (none, p) => (0, p)
  | (some a, p) =>
    if a.head? = some '"' || a.head? = some '\'' then (((a.tail.head?.map Char.toNat).getD 0 : Nat), p)
    else
      let (n, rest) := (readInteger none a).getD (0, a)
      let low : Int := if signed then -largest - 1 else -(Nat.pow 2 64 - 1)
      let high : Int := if signed then largest else Nat.pow 2 64 - 1
      (max low (min high n), p.check a rest (low ≤ n && n ≤ high))

/-- The number with a fraction that the next argument is. -/
def takeFraction (p : Printing) : Fraction × Printing :=
  match p.take with
  | (none, p) => (⟨false, 0, 1⟩, p)
  | (some a, p) =>
    if a.head? = some '"' || a.head? = some '\'' then
      (⟨false, (a.tail.head?.map Char.toNat).getD 0, 1⟩, p)
    else
      match readFraction a with
      | some (f, inRange, rest) => (f, p.check a rest inRange)
      | none => (⟨false, 0, 1⟩, p.check a a true)

/-- Shows the next argument. -/
def print (p : Printing) (directive : Text) (conversion : Char) (l : Layout) : Printing :=
  match conversion with
  | 's' =>
    let (a, p) := p.take
    p.add (l.text (a.getD []))
  | 'b' =>
    let (a, p) := p.take
    let a := a.getD []
    let (t, more) := unescape a.length a
    let p := p.add (l.text t)
    if more then p else { p with done := true }
  | 'c' =>
    let (a, p) := p.take
    p.add (l.pad [((a.getD []).head?).getD '\x00'])
  | c =>
    if c = 'd' || c = 'i' then
      let (n, p) := p.takeNumber true
      p.add (l.whole (l.sign (n < 0)) (ofNat n.natAbs))
    else if c = 'o' || c = 'u' || c = 'x' || c = 'X' then
      let (n, p) := p.takeNumber false
      p.add (l.unsigned c n)
    else if "aAeEfFgG".toList.contains c then
      let (f, p) := p.takeFraction
      p.add (l.fraction c f)
    else p.fail (directive ++ ": invalid directive".toList)

/-- A number at the front of a format, which a star takes from the arguments. It has 32 bits. -/
def takeWidth (p : Printing) (format : Text) : Option Int × Printing × Text :=
  match format with
  | '*' :: r =>
    let (n, p) := p.takeNumber true
    (some (n.bmod (Nat.pow 2 32)), p, r)
  | _ =>
    let digits := format.takeWhile Char.isDigit
    (if digits.isEmpty then none else some (valueTo 10 digits), p, format.drop digits.length)

/-- A directive behind its percent sign, and what follows it. -/
def directive (p : Printing) (format : Text) : Printing × Text :=
  let flags := format.takeWhile fun c => "#-+ 0".toList.contains c
  let l := flags.foldl Layout.flag {}
  let (width, p, rest) := p.takeWidth (format.drop flags.length)
  let l := match width with
    | some w => { l with left := l.left || w < 0, width := w.natAbs }
    | none => l
  let (precision, p, rest) := match rest with
    | '.' :: r =>
      let (n, p, r) := p.takeWidth r
      (some (n.getD 0), p, r)
    | _ => (none, p, rest)
  let l := match precision with
    | some n => { l with precision := if n < 0 then none else some n.toNat }
    | none => l
  match rest with
  | [] => (p.fail "missing format character".toList, [])
  | c :: r => (p.print ('%' :: format.take (format.length - r.length)) c l, r)

/-- One pass over a format. -/
def once : Nat → Text → Printing → Printing
  | 0, _, p => p
  | _ + 1, [], p => p
  | n + 1, c :: r, p =>
    if p.done then p
    else if c = '\\' then
      let (d, rest) := escaped r
      once n rest (p.add [d])
    else if c = '%' then
      if r.head? = some '%' then once n r.tail (p.add ['%'])
      else
        let (p, rest) := p.directive r
        once n rest p
    else once n r (p.add [c])

/-- Passes over a format as long as arguments are left and it takes some. -/
def all : Nat → Text → Printing → Printing
  | 0, _, p => p
  | n + 1, format, p =>
    let q := once format.length format p
    if q.done || q.arguments.isEmpty || q.arguments.length = p.arguments.length then q
    else all n format q

end Printing

/-- The output of `printf` for a format and arguments. -/
def printed (format : Text) (arguments : List Text) : Printing :=
  Printing.all (arguments.length + 1) format { arguments }

end Flatsheet.Shell
