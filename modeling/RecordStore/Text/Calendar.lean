import RecordStore.Number.Numeral

namespace RecordStore.Calendar

def millisPerDay : Int := 86400000

def isLeap (year : Int) : Bool := year % 4 == 0 && (year % 100 != 0 || year % 400 == 0)

def daysInMonth (year : Int) (month : Nat) : Nat :=
  match month with
  | 2 => if isLeap year then 29 else 28
  | 4 | 6 | 9 | 11 => 30
  | _ => 31

structure Date where
  year : Int
  month : Nat
  day : Nat
deriving DecidableEq, Repr

/-- Days from the start of 1970. Years are taken to begin in March, so that the leap day ends
one. -/
def Date.toDays (d : Date) : Int :=
  let year := if d.month ≤ 2 then d.year - 1 else d.year
  let month := (d.month + 9) % 12
  let dayOfYear : Nat := (153 * month + 2) / 5 + d.day - 1
  365 * year + year / 4 - year / 100 + year / 400 + dayOfYear - 719468

def Date.ofDays (days : Int) : Date :=
  let z := days + 719468
  let era := z / 146097
  let dayOfEra := (z % 146097).toNat
  let yearOfEra := (dayOfEra - dayOfEra / 1460 + dayOfEra / 36524 - dayOfEra / 146096) / 365
  let dayOfYear := dayOfEra - (365 * yearOfEra + yearOfEra / 4 - yearOfEra / 100)
  let month := (5 * dayOfYear + 2) / 153
  let day := dayOfYear - (153 * month + 2) / 5 + 1
  let year := yearOfEra + era * 400
  if month < 10 then ⟨year, month + 3, day⟩ else ⟨year + 1, month - 9, day⟩

def pad (width n : Nat) : String :=
  let s := toString n
  String.ofList (List.replicate (width - s.length) '0') ++ s

def yearText (year : Int) : String :=
  if year < 0 then "-" ++ pad 4 year.natAbs else pad 4 year.natAbs

def fractionText (millis : Nat) : String :=
  if millis % 100 = 0 then toString (millis / 100)
  else if millis % 10 = 0 then pad 2 (millis / 10)
  else pad 3 millis

/-- Date and time of day in universal time; outside of the years that have four digits the
milliseconds themselves. -/
def text (millis : Int) : String :=
  let date := Date.ofDays (millis / millisPerDay)
  let rest := (millis % millisPerDay).toNat
  if date.year < -9999 ∨ 9999 < date.year then toString millis
  else
    yearText date.year ++ "-" ++ pad 2 date.month ++ "-" ++ pad 2 date.day ++ " " ++
      toString (rest / 3600000) ++ ":" ++ pad 2 (rest / 60000 % 60) ++ ":" ++
      pad 2 (rest / 1000 % 60) ++ "." ++ fractionText (rest % 1000) ++ " +00:00:00"

def digits? (count : Nat) (cs : List Char) : Option (Nat × List Char) :=
  let ds := cs.take count
  if ds.length = count ∧ ds.all Char.isDigit then some (Numeral.ofDigits ds, cs.drop count) else none

def expect (c : Char) : List Char → Option (List Char)
  | d :: cs => if c = d then some cs else none
  | [] => none

def nanos? : List Char → Option (Nat × List Char)
  | '.' :: cs =>
    let ds := cs.takeWhile Char.isDigit
    if ds.isEmpty then none
    else some (Numeral.ofDigits ((ds ++ List.replicate 9 '0').take 9), cs.dropWhile Char.isDigit)
  | cs => some (0, cs)

def offset? : List Char → Option Int
  | ['Z'] | ['z'] => some 0
  | c :: cs => do
    guard (c == '+' || c == '-')
    let (hours, cs) ← digits? 2 cs
    let (minutes, cs) ← digits? 2 (← expect ':' cs)
    guard (cs.isEmpty && decide (hours ≤ 25) && decide (minutes ≤ 59))
    let seconds : Int := (hours * 3600 + minutes * 60 : Nat)
    return if c == '-' then -seconds else seconds
  | [] => none

/-- A second numbered 60 stands for the last nanosecond before it, and only at the end of a month
in universal time. -/
def endsMonth (seconds : Int) : Bool :=
  let date := Date.ofDays (seconds / 86400)
  seconds % 86400 == 86399 && date.day == daysInMonth date.year date.month

/-- Reads a date, one character, a time of day and an offset. Parts of a millisecond are cut
towards 1970. -/
def millis? (cs : List Char) : Option Int := do
  let (year, cs) ← digits? 4 cs
  let (month, cs) ← digits? 2 (← expect '-' cs)
  let (day, cs) ← digits? 2 (← expect '-' cs)
  let separator ← cs.head?
  guard (decide (separator.toNat < 128))
  let (hour, cs) ← digits? 2 (cs.drop 1)
  let (minute, cs) ← digits? 2 (← expect ':' cs)
  let (second, cs) ← digits? 2 (← expect ':' cs)
  let (nanos, cs) ← nanos? cs
  let offset ← offset? cs
  guard (1 ≤ month ∧ month ≤ 12 ∧ 1 ≤ day ∧ day ≤ daysInMonth year month)
  guard (hour ≤ 23 ∧ minute ≤ 59 ∧ second ≤ 60)
  let leap := second == 60
  let nanos := if leap then 999999999 else nanos
  let second := if leap then 59 else second
  let seconds := (Date.toDays ⟨year, month, day⟩) * 86400 +
    (hour * 3600 + minute * 60 + second : Nat) - offset
  guard (!leap || endsMonth seconds)
  return Int.tdiv (seconds * 1000000000 + nanos) 1000000

end RecordStore.Calendar
