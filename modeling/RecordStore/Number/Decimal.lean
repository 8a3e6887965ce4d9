import RecordStore.Number.Numeral

namespace RecordStore

inductive Decimal where
  | finite (negative : Bool) (coefficient : Nat) (exponent : Int)
  | infinity (negative : Bool)
  | nan (negative signaling : Bool)
deriving DecidableEq, Repr, Inhabited

namespace Decimal

def maxDigits : Nat := 34

def tiny : Int := -6176

def huge : Int := 6111

def toDouble : Decimal → Double
  | .finite negative coefficient exponent => .ofScientific negative coefficient exponent
  | .infinity negative => .infinity negative
  | .nan _ _ => .nan

def signText (negative : Bool) : String := if negative then "-" else ""

def plainText (digits : List Char) (places : Nat) : List Char :=
  if places = 0 then digits
  else if digits.length ≤ places then
    '0' :: '.' :: (List.replicate (places - digits.length) '0' ++ digits)
  else digits.take (digits.length - places) ++ '.' :: digits.drop (digits.length - places)

def exponentText (digits : List Char) (adjusted : Int) : List Char :=
  let fraction := digits.drop 1
  digits.take 1 ++ (if fraction.isEmpty then [] else '.' :: fraction) ++
    'E' :: ((if 0 < adjusted then ['+'] else []) ++ (toString adjusted).toList)

/-- The canonical text: positional unless the exponent is positive or the first digit stands below
the sixth place after the point. A NaN shows neither sign nor signal. -/
def text : Decimal → String
  | .nan _ _ => "NaN"
  | .infinity negative => signText negative ++ "Infinity"
  | .finite negative coefficient exponent =>
    let digits := Nat.toDigits 10 coefficient
    let adjusted := exponent + digits.length - 1
    signText negative ++ String.ofList
      (if exponent ≤ 0 ∧ -6 ≤ adjusted then plainText digits (-exponent).toNat
       else exponentText digits adjusted)

def keepDigits (digits : List Char) (count : Nat) : Option (List Char) :=
  if (digits.drop count).all (· == '0') then some (digits.take count) else none

def fitPrecision (digits : List Char) (exponent : Int) : Option (List Char × Int) :=
  if digits.length ≤ maxDigits then some (digits, exponent)
  else do
    let kept ← keepDigits digits maxDigits
    return (kept, exponent + (digits.length - maxDigits : Nat))

def fitExponent (digits : List Char) (exponent : Int) : Option (List Char × Int) :=
  if exponent < tiny then
    if digits = ['0'] then some (digits, tiny)
    else do
      let delta := (tiny - exponent).toNat
      guard (delta ≤ digits.length)
      return (← keepDigits digits (digits.length - delta), tiny)
  else if huge < exponent then
    if digits = ['0'] then some (digits, huge)
    else do
      let delta := (exponent - huge).toNat
      guard (digits.length + delta ≤ maxDigits)
      return (digits ++ List.replicate delta '0', huge)
  else some (digits, exponent)

/-- Reads an unsigned numeral. The point may stand anywhere among the digits, and no digits are a
zero. The exponent, that of the last digit included, is a word of 128 bits. -/
def ofNumeral? (negative : Bool) (cs : List Char) : Option Decimal := do
  let (mantissa, written) := Numeral.splitAtFirst (· == 'e') cs
  let exponent ← match written with
    | none => some 0
    | some cs => Numeral.integerOfWidth? 128 cs
  let (whole, part) := Numeral.splitAtFirst (· == '.') mantissa
  let part := part.getD []
  let exponent := exponent - part.length
  guard (-(twoTo 127 : Int) ≤ exponent)
  let significant := (whole ++ part).dropWhile (· == '0')
  let digits := if significant.isEmpty then ['0'] else significant
  let (digits, exponent) ← fitPrecision digits exponent
  let (digits, exponent) ← fitExponent digits exponent
  return .finite negative (← Numeral.unsignedBelow? (twoTo 128) digits) exponent

/-- Reads a decimal in any capitalisation. A numeral that the format cannot hold exactly is
refused. -/
def ofText? (s : String) : Option Decimal :=
  let (negative, cs) := Numeral.splitSign s.toList
  let cs := cs.map Char.toLower
  match String.ofList cs with
  | "nan" => some (.nan negative false)
  | "snan" => some (.nan negative true)
  | "infinity" | "inf" => some (.infinity negative)
  | _ => ofNumeral? negative cs

end Decimal

end RecordStore
