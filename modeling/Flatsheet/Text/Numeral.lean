import Flatsheet.Text.Basic

/-!
# `Flatsheet.Text.Numeral` — texts that are a floating-point number

A numeral is an optional sign followed by a decimal number with an optional exponent, a hexadecimal
number after `0x` with an optional binary exponent after `p`, an infinity (`inf`, `infinity`) or a NaN
(`nan`, with optional letters, digits and `_` in parentheses). Letters may be of either case.

## Contents

* `Text.isNumeral`
* `Text.integer?`: optional minus sign and decimal digits
-/

namespace Flatsheet.Text

/-- What remains of a number after its mantissa: digits of a class with at most one point among them and
at least one digit. -/
def afterMantissa? (digit : Char → Bool) (t : Text) : Option Text :=
  let whole := t.takeWhile digit
  let rest := t.dropWhile digit
  match rest with
  | '.' :: r =>
    if whole.isEmpty && (r.takeWhile digit).isEmpty then none else some (r.dropWhile digit)
  | _ => if whole.isEmpty then none else some rest

/-- Nothing, or an exponent: the mark, an optional sign and decimal digits. -/
def isExponent (mark : Char) (t : Text) : Bool :=
  match t with
  | [] => true
  | c :: r =>
    let digits := match r with
      | '+' :: ds => ds
      | '-' :: ds => ds
      | _ => r
    c = mark && !digits.isEmpty && digits.all Char.isDigit

/-- A number without its sign, in small letters. -/
def isUnsignedNumeral (t : Text) : Bool :=
  let nanSuffix := t.drop 4
  t = "inf".toList || t = "infinity".toList || t = "nan".toList
    || (startsWith t "nan(".toList && nanSuffix.getLast? = some ')'
        && nanSuffix.dropLast.all fun c => c.isAlphanum || c = '_')
    || (match afterMantissa? Char.isDigit t with
        | some r => isExponent 'e' r
        | none => false)
    || (startsWith t "0x".toList
        && match afterMantissa? isHexDigit (t.drop 2) with
          | some r => isExponent 'p' r
          | none => false)

/-- The whole text is one floating-point number. -/
def isNumeral (t : Text) : Bool :=
  match lower t with
  | '+' :: r => isUnsignedNumeral r
  | '-' :: r => isUnsignedNumeral r
  | r => isUnsignedNumeral r

/-- The value of decimal digits. -/
def digitsValue (t : Text) : Nat := t.foldl (fun n c => 10 * n + (c.toNat - 48)) 0

/-- The integer that a text of an optional minus sign and at least one decimal digit denotes. -/
def integer? (t : Text) : Option Int :=
  let digits := match t with
    | '-' :: r => r
    | _ => t
  if digits.isEmpty || !digits.all Char.isDigit then none
  else if t.head? = some '-' then some (-(digitsValue digits : Int)) else some (digitsValue digits)

end Flatsheet.Text
