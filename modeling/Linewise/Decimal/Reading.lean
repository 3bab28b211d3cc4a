import Linewise.Text

/-!
# Reading floating-point numbers

A floating-point text is an optional sign followed by a word for infinity or for "not a number",
in any mixture of cases, or by a decimal: digits with at most one point among them, at least one
digit in all, and an optional exponent. Its value is the double nearest to the decimal.
-/

namespace Linewise.Decimal

/-- The whole number nearest to a quotient, the even one when two are equally near. -/
def roundDiv (num den : Nat) : Nat :=
  let below := num / den
  let rest := num % den
  if 2 * rest < den || (2 * rest = den && below % 2 = 0) then below else below + 1

/-- The largest `e` with `2 ^ e ≤ num / den`, for positive `num` and `den`. -/
def binaryExponent (num den : Nat) : Int :=
  let e : Int := (num.log2 : Int) - den.log2
  if den * Nat.pow 2 e.toNat ≤ num * Nat.pow 2 (-e).toNat then e else e - 1

/-- The double nearest to a quotient of positive numbers. Its unit in the last place is at least
    `2 ^ (-1074)`, and a mantissa that rounds up to the next power of two carries into the
    exponent, where the largest exponent stands for infinity. -/
def ofRatio (num den : Nat) : Float :=
  let unit := max (binaryExponent num den - 52) (-1074)
  let mantissa := roundDiv (num * Nat.pow 2 (-unit).toNat) (den * Nat.pow 2 unit.toNat)
  let bits := (unit + 1074).toNat * 0x10000000000000 + mantissa
  Float.ofBits (UInt64.ofNat (min bits 0x7FF0000000000000))

/-- The double nearest to `digits · 10 ^ exponent`. Far beyond the range of doubles the answer is
    infinity or zero, and no power of ten is computed to find it. -/
def nearest (digits : Nat) (exponent : Int) : Float :=
  let top := ((Nat.toDigits 10 digits).length : Int) + exponent
  if digits = 0 || top < -400 then 0.0
  else if top > 400 then 1.0 / 0.0
  else ofRatio (digits * Nat.pow 10 exponent.toNat) (Nat.pow 10 (-exponent).toNat)

/-- The exponent that ends a decimal, `none` when the text is not one. No exponent is zero. -/
def exponentPart? : List Char → Option Int
  | [] => some 0
  | e :: rest =>
    if e = 'e' || e = 'E' then
      match rest with
      | '+' :: digits => (Numeral.digits? digits).map Int.ofNat
      | '-' :: digits => (Numeral.digits? digits).map fun n => -(n : Int)
      | digits => (Numeral.digits? digits).map Int.ofNat
    else none

/-- The value of an unsigned decimal. -/
def decimal? (cs : List Char) : Option Float := do
  let whole := cs.takeWhile Char.isDigit
  let (fraction, rest) := match cs.dropWhile Char.isDigit with
    | '.' :: rest => (rest.takeWhile Char.isDigit, rest.dropWhile Char.isDigit)
    | rest => ([], rest)
  let digits ← Numeral.digits? (whole ++ fraction)
  let exponent ← exponentPart? rest
  return nearest digits (exponent - fraction.length)

/-- The value of an unsigned number, the words for the special values among them. -/
def unsigned? (cs : List Char) : Option Float :=
  let word := String.ofList (cs.map Char.toLower)
  if word = "inf" || word = "infinity" then some (1.0 / 0.0)
  else if word = "nan" then some (0.0 / 0.0)
  else decimal? cs

/-- The value of a floating-point text, `none` when it is not one. -/
def read? (s : String) : Option Float :=
  match s.toList with
  | '+' :: rest => unsigned? rest
  | '-' :: rest => (unsigned? rest).map fun x => -x
  | cs => unsigned? cs

end Linewise.Decimal
