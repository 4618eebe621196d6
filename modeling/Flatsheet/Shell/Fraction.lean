import Flatsheet.Shell.Arithmetic

/-!
# `Flatsheet.Shell.Fraction` — numbers with a fraction

A number is rounded to the nearest one with 53 binary digits, and that one is written exactly up to the
places asked for. A half goes to the even neighbour each time.

## Contents

* `Fraction`: a quotient with a sign
* `readFraction`: the number at the front of a text
* `Fraction.fixed`, `Fraction.scientific`, `Fraction.general`, `Fraction.hexadecimal`: its texts, without a
  sign
-/

namespace Flatsheet.Shell

open Text

/-- A number: a sign, and a quotient. With a divisor of zero it is infinite, or no number if it is zero
otherwise. -/
structure Fraction where
  negative : Bool
  numerator : Nat
  denominator : Nat

/-- A quotient as the nearest whole number; a half goes to the even one. -/
def nearest (a b : Nat) : Nat :=
  let q := a / b
  let r := a % b
  if 2 * r < b || (2 * r = b && q % 2 = 0) then q else q + 1

/-- The nearest number with 53 binary digits, fewer below the least power of two, and whether there is one. -/
def Fraction.rounded (f : Fraction) : Fraction × Bool :=
  if f.numerator = 0 then (f, true)
  else
    -- The quotient, shifted, has 53 or 54 digits; with 54 of them it is shifted by one less.
    let digits : Int := (f.numerator.log2 : Int) - f.denominator.log2
    let scaled (shift : Int) : Nat × Nat :=
      if shift ≥ 0 then (f.numerator * Nat.pow 2 shift.toNat, f.denominator)
      else (f.numerator, f.denominator * Nat.pow 2 (-shift).toNat)
    let shift := 53 - digits
    let (a, b) := scaled shift
    let shift := if a / b < Nat.pow 2 53 then shift else shift - 1
    let cut := min shift 1074
    let (a, b) := scaled cut
    let mantissa := nearest a b
    let exact := cut = shift || a % b = 0
    if cut ≥ 0 then ({ f with numerator := mantissa, denominator := Nat.pow 2 cut.toNat }, exact)
    else
      let whole := mantissa * Nat.pow 2 (-cut).toNat
      if whole < Nat.pow 2 1024 then ({ f with numerator := whole, denominator := 1 }, true)
      else ({ f with numerator := 1, denominator := 0 }, false)

/-- The power behind digits that one of two letters announces, and what follows it. -/
def readPower (mark upper : Char) (t : Text) : Int × Text :=
  match t with
  | c :: r =>
    if c = mark || c = upper then
      let (down, ds) := match r with
        | '-' :: ds => (true, ds)
        | '+' :: ds => (false, ds)
        | _ => (false, r)
      let value := ds.takeWhile Char.isDigit
      if value.isEmpty then (0, t)
      else (if down then -(valueTo 10 value : Int) else valueTo 10 value, ds.drop value.length)
    else (0, t)
  | [] => (0, [])

/-- The digits to a base at the front of a text, with and without a point, as a quotient, and what follows
them. A power may follow: of ten, or of two if the base is sixteen. -/
def readDigits (base : Nat) (negative : Bool) (t : Text) : Option (Fraction × Text) :=
  let whole := t.takeWhile (isDigitTo base)
  let rest := t.drop whole.length
  let (places, rest) := match rest with
    | '.' :: r => (r.takeWhile (isDigitTo base), r.dropWhile (isDigitTo base))
    | _ => ([], rest)
  if whole.isEmpty && places.isEmpty then none
  else
    let (power, rest) := if base = 10 then readPower 'e' 'E' rest else readPower 'p' 'P' rest
    -- Beyond these powers every number is too large or too small to be told apart.
    let power := max (-6000) (min 6000 power)
    let radix := if base = 10 then 10 else 2
    let digits := valueTo base (whole ++ places)
    some (⟨negative, if power ≥ 0 then digits * Nat.pow radix power.toNat else digits,
      Nat.pow base places.length * if power ≥ 0 then 1 else Nat.pow radix (-power).toNat⟩, rest)

/-- What follows a name at the front of a text, whatever the case of its letters. -/
def behindName? (name : String) (t : Text) : Option Text :=
  if startsWith (t.map Char.toLower) name.toList then some (t.drop name.length) else none

/-- The number at the front of a text, behind blanks, whether it could be kept, and what follows it. -/
def readFraction (t : Text) : Option (Fraction × Bool × Text) :=
  let t := trimLeft t
  let (negative, t) := match t with
    | '-' :: r => (true, r)
    | '+' :: r => (false, r)
    | _ => (false, t)
  let infinite (rest : Text) : Option (Fraction × Bool × Text) := some (⟨negative, 1, 0⟩, true, rest)
  match behindName? "infinity" t, behindName? "inf" t, behindName? "nan" t with
  | some rest, _, _ => infinite rest
  | _, some rest, _ => infinite rest
  | _, _, some rest => some (⟨negative, 0, 0⟩, true, rest)
  | _, _, _ =>
    let read := match behindName? "0x" t with
      | some r => (readDigits 16 negative r).orElse fun _ => readDigits 10 negative t
      | none => readDigits 10 negative t
    read.map fun (f, rest) =>
      let (f, kept) := f.rounded
      (f, kept, rest)

namespace Fraction

/-- The name of a number that has no digits. -/
def special? (f : Fraction) : Option Text :=
  if f.denominator ≠ 0 then none
  else if f.numerator = 0 then some "nan".toList
  else some "inf".toList

/-- Digits with a point before the last ones. Without places the point is left out unless asked for. -/
def pointed (places : Nat) (point : Bool) (n : Nat) : Text :=
  let digits := ofNat n
  let digits := List.replicate (places + 1 - digits.length) '0' ++ digits
  let whole := digits.take (digits.length - places)
  if places = 0 && !point then whole else whole ++ '.' :: digits.drop whole.length

/-- The number with so many places. -/
def fixed (f : Fraction) (places : Nat) (point : Bool) : Text :=
  pointed places point (nearest (f.numerator * Nat.pow 10 places) f.denominator)

/-- The power of ten of the first digit, and the digits with so many places. -/
def decimal (f : Fraction) (places : Nat) : Int × Nat :=
  if f.numerator = 0 then (0, 0)
  else
    let scaled (power : Int) : Nat :=
      let shift := (places : Int) - power
      if shift ≥ 0 then nearest (f.numerator * Nat.pow 10 shift.toNat) f.denominator
      else nearest f.numerator (f.denominator * Nat.pow 10 (-shift).toNat)
    let guess : Int := ((ofNat f.numerator).length : Int) - (ofNat f.denominator).length
    -- The guess is at most one too high; rounding can need one more digit.
    let less := if guess ≥ 0 then f.numerator < f.denominator * Nat.pow 10 guess.toNat
      else f.numerator * Nat.pow 10 (-guess).toNat < f.denominator
    let power := if less then guess - 1 else guess
    if Nat.pow 10 (places + 1) ≤ scaled power then (power + 1, scaled (power + 1)) else (power, scaled power)

/-- The text of a power: a sign and at least so many digits. -/
def powerText (least : Nat) (p : Int) : Text :=
  let digits := ofNat p.natAbs
  (if p < 0 then '-' else '+') :: (List.replicate (least - digits.length) '0' ++ digits)

/-- The number with one digit before the point, so many behind it, and a power of ten. -/
def scientific (f : Fraction) (places : Nat) (point : Bool) (mark : Char) : Text :=
  let (power, digits) := f.decimal places
  pointed places point digits ++ mark :: powerText 2 power

/-- The text without the zeros at its end, if it has a point. -/
def withoutZeros (t : Text) : Text :=
  if t.contains '.' then
    let r := t.reverse.dropWhile (· = '0')
    (if r.head? = some '.' then r.tail else r).reverse
  else t

/-- The number with so many digits, written in the shorter way. Zeros at its end are left out unless the
point is asked for. -/
def general (f : Fraction) (digits : Nat) (point : Bool) (mark : Char) : Text :=
  -- No number has more digits than 767 before the zeros at its end.
  let digits := max (if point then digits else min digits 800) 1
  let short (t : Text) : Text := if point then t else withoutZeros t
  let (power, n) := f.decimal (digits - 1)
  if power < -4 || (digits : Int) ≤ power then
    short (pointed (digits - 1) point n) ++ mark :: powerText 2 power
  else short (f.fixed ((digits : Int) - 1 - power).toNat point)

/-- The number to the base sixteen with so many places, as many as it has unless they are given, and a power
of two. -/
def hexadecimal (f : Fraction) (places : Option Nat) (point : Bool) : Text :=
  let power : Int :=
    if f.numerator = 0 then 0 else max (-1022) ((f.numerator.log2 : Int) - f.denominator.log2)
  let shown := places.getD 13
  let (a, b) := if power ≥ 0 then (f.numerator, f.denominator * Nat.pow 2 power.toNat)
    else (f.numerator * Nat.pow 2 (-power).toNat, f.denominator)
  let n := nearest (a * Nat.pow 16 shown) b
  let digits := Nat.toDigits 16 (n % Nat.pow 16 shown)
  let digits := List.replicate (shown - digits.length) '0' ++ digits.drop (digits.length - shown)
  let digits := if places.isNone then (digits.reverse.dropWhile (· = '0')).reverse else digits
  Nat.toDigits 16 (n / Nat.pow 16 shown) ++ (if digits.isEmpty && !point then [] else ['.']) ++ digits
    ++ 'p' :: powerText 1 power

end Fraction

end Flatsheet.Shell
