import RecordStore.Number.Numeral
import RecordStore.Text.Calendar

namespace RecordStore

inductive TomlScalar where
  | boolean (b : Bool)
  | integer (n : Int)
  | float (d : Double)
  /-- A date, a time of day or both, in its canonical text. -/
  | moment (text : String)
deriving DecidableEq, Repr

namespace TomlScalar

def digits? (isDigit : Char → Bool) : List Char → Option (List Char)
  | [] => none
  | [c] => if isDigit c then some [c] else none
  | c :: '_' :: cs => if isDigit c then (digits? isDigit cs).map (c :: ·) else none
  | c :: cs => if isDigit c then (digits? isDigit cs).map (c :: ·) else none

def baseDigit? (base : Nat) (c : Char) : Option Nat :=
  let n :=
    if c.isDigit then c.toNat - 48
    else if 'a' ≤ c ∧ c ≤ 'f' then c.toNat - 87
    else if 'A' ≤ c ∧ c ≤ 'F' then c.toNat - 55
    else base
  if n < base then some n else none

def inBase? (base : Nat) (cs : List Char) : Option Nat := do
  let ds ← digits? (fun c => (baseDigit? base c).isSome) cs
  ds.foldlM (fun n c => (baseDigit? base c).map fun d => base * n + d) 0

def whole? (cs : List Char) : Option (List Char) := do
  let ds ← digits? Char.isDigit cs
  guard (ds.head? != some '0' || cs.length == 1)
  return ds

def integer? (cs : List Char) : Option TomlScalar := do
  let n : Int ← match cs with
    | '0' :: 'x' :: cs => (inBase? 16 cs).map Int.ofNat
    | '0' :: 'o' :: cs => (inBase? 8 cs).map Int.ofNat
    | '0' :: 'b' :: cs => (inBase? 2 cs).map Int.ofNat
    | cs => do
      let (negative, cs) := Numeral.splitSign cs
      let n := Numeral.ofDigits (← whole? cs)
      pure (if negative then -(n : Int) else n)
  guard (-(twoTo 127 : Int) ≤ n ∧ n < twoTo 128)
  return .integer n

/-- A fraction with a point, an exponent or both, or one of the words for what is not finite. A
number too large for a double is refused. -/
def float? (cs : List Char) : Option TomlScalar := do
  let (negative, cs) := Numeral.splitSign cs
  if cs = "inf".toList then return .float (.infinity negative)
  if cs = "nan".toList then return .float (.ofMagnitude negative Double.nan.magnitude)
  let (mantissa, exponent) := Numeral.splitAtFirst (fun c => c == 'e' || c == 'E') cs
  let (whole, part) := Numeral.splitAtFirst (· == '.') mantissa
  guard (part.isSome || exponent.isSome)
  let whole ← whole? whole
  let part ← match part with
    | none => some []
    | some cs => digits? Char.isDigit cs
  let exponent ← match exponent with
    | none => some []
    | some cs => do
      let sign := cs.takeWhile fun c => c == '+' || c == '-'
      guard (decide (sign.length ≤ 1))
      pure ('e' :: (sign ++ (← digits? Char.isDigit (cs.drop sign.length))))
  let (coefficient, e) ← Numeral.scientific? (whole ++ '.' :: part ++ exponent)
  let d := Double.ofScientific negative coefficient e
  guard (!d.isInfinite)
  return .float d

def date? (cs : List Char) : Option (String × List Char) := do
  let (year, cs) ← Calendar.digits? 4 cs
  let (month, cs) ← Calendar.digits? 2 (← Calendar.expect '-' cs)
  let (day, cs) ← Calendar.digits? 2 (← Calendar.expect '-' cs)
  guard (1 ≤ month ∧ month ≤ 12 ∧ 1 ≤ day ∧ day ≤ Calendar.daysInMonth year month)
  return (Calendar.pad 4 year ++ "-" ++ Calendar.pad 2 month ++ "-" ++ Calendar.pad 2 day, cs)

/-- The seconds and nanoseconds of a time of day. They may be left out, and then count as none. -/
def seconds? : List Char → Option (Nat × Nat × List Char)
  | ':' :: cs => do
    let (second, cs) ← Calendar.digits? 2 cs
    let (nanos, cs) ← Calendar.nanos? cs
    return (second, nanos, cs)
  | cs => some (0, 0, cs)

def time? (cs : List Char) : Option (String × List Char) := do
  let (hour, cs) ← Calendar.digits? 2 cs
  let (minute, cs) ← Calendar.digits? 2 (← Calendar.expect ':' cs)
  let (second, nanos, cs) ← seconds? cs
  guard (hour ≤ 23 ∧ minute ≤ 59 ∧ second ≤ 60)
  let fraction :=
    if nanos = 0 then ""
    else "." ++ String.ofList ((Calendar.pad 9 nanos).toList.reverse.dropWhile (· == '0')).reverse
  return (Calendar.pad 2 hour ++ ":" ++ Calendar.pad 2 minute ++ ":" ++ Calendar.pad 2 second ++
    fraction, cs)

def offset? : List Char → Option String
  | [] => some ""
  | ['Z'] | ['z'] => some "Z"
  | c :: cs => do
    guard (c == '+' || c == '-')
    let (hours, cs) ← Calendar.digits? 2 cs
    let (minutes, cs) ← Calendar.digits? 2 (← Calendar.expect ':' cs)
    guard (cs.isEmpty && decide (hours ≤ 23) && decide (minutes ≤ 59))
    let sign := if hours = 0 ∧ minutes = 0 then '+' else c
    return String.singleton sign ++ Calendar.pad 2 hours ++ ":" ++ Calendar.pad 2 minutes

def moment? (cs : List Char) : Option TomlScalar :=
  match time? cs with
  | some (time, []) => some (.moment time)
  | _ => do
    let (date, cs) ← date? cs
    match cs with
    | [] => return .moment date
    | c :: cs =>
      guard (c == 'T' || c == 't' || c == ' ')
      let (time, cs) ← time? cs
      return .moment (date ++ "T" ++ time ++ (← offset? cs))

def ofText? (cs : List Char) : Option TomlScalar :=
  if cs = "true".toList then some (.boolean true)
  else if cs = "false".toList then some (.boolean false)
  else (moment? cs).or ((integer? cs).or (float? cs))

end TomlScalar

end RecordStore
