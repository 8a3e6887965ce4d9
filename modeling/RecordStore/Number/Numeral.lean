import RecordStore.Number.Double

namespace RecordStore.Numeral

def digitValue (c : Char) : Nat := c.toNat - '0'.toNat

def ofDigits (cs : List Char) : Nat := cs.foldl (fun n c => 10 * n + digitValue c) 0

def natural? (cs : List Char) : Option Nat :=
  if cs.isEmpty || !cs.all Char.isDigit then none else some (ofDigits cs)

def unsigned? : List Char → Option Nat
  | '+' :: cs => natural? cs
  | cs => natural? cs

def integer? : List Char → Option Int
  | '-' :: cs => (natural? cs).map fun n => -(n : Int)
  | cs => (unsigned? cs).map Int.ofNat

def unsignedBelow? (bound : Nat) (cs : List Char) : Option Nat :=
  (unsigned? cs).filter (· < bound)

def integerOfWidth? (bits : Nat) (cs : List Char) : Option Int :=
  (integer? cs).filter fun n => -(twoTo (bits - 1) : Int) ≤ n ∧ n < twoTo (bits - 1)

def splitSign : List Char → Bool × List Char
  | '-' :: cs => (true, cs)
  | '+' :: cs => (false, cs)
  | cs => (false, cs)

def splitAtFirst (p : Char → Bool) : List Char → List Char × Option (List Char)
  | [] => ([], none)
  | c :: cs =>
    if p c then ([], some cs)
    else
      let (before, rest) := splitAtFirst p cs
      (c :: before, rest)

/-- Exponents beyond this one cannot bring a numeral of the given length back into range. -/
def exponentCap (length : Nat) : Nat := length + 1000

/-- Reads `digits.digits` with an optional exponent as `coefficient * 10 ^ exponent`. One side of
the point may be empty, an exponent has at least one digit. -/
def scientific? (cs : List Char) : Option (Nat × Int) := do
  let (mantissa, exponent) := splitAtFirst (fun c => c == 'e' || c == 'E') cs
  let (whole, part) := splitAtFirst (· == '.') mantissa
  let part := part.getD []
  guard (!(whole.isEmpty && part.isEmpty))
  guard (whole.all Char.isDigit && part.all Char.isDigit)
  let e ← match exponent with
    | none => some 0
    | some cs => integer? cs
  let cap := exponentCap cs.length
  let e := max (-(cap : Int)) (min cap e)
  return (ofDigits (whole ++ part), e - part.length)

/-- The double nearest to a decimal numeral; `inf`, `infinity` and `nan` are numerals in any
capitalisation. -/
def double? (cs : List Char) : Option Double :=
  let (negative, rest) := splitSign cs
  let word := String.ofList (rest.map Char.toLower)
  if word == "inf" || word == "infinity" then some (.infinity negative)
  else if word == "nan" then some (.ofMagnitude negative Double.nan.magnitude)
  else (scientific? rest).map fun (c, e) => .ofScientific negative c e

end RecordStore.Numeral
