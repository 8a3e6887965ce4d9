import RecordStore.Number.Double

namespace RecordStore.Double

/-- The largest `p` with `10 ^ p ≤ num / den`, for positive `num` and `den`: the estimate from the
binary logarithm is off by at most one. -/
def floorLog10 (num den : Nat) : Int :=
  let p := floorLog2 num den * 30103 / 100000
  let atLeast (p : Int) : Bool :=
    if 0 ≤ p then decide (den * tenTo p.toNat ≤ num) else decide (den ≤ num * tenTo (-p).toNat)
  if atLeast (p + 1) then p + 1 else if atLeast p then p else p - 1

/-- The numbers that round to a given double lie between `low` and `high`, counted like `value`
in units of `2 ^ exponent`; the ends belong to them iff the significand is even. -/
structure Neighbourhood where
  value : Nat
  low : Nat
  high : Nat
  exponent : Int
  closed : Bool

def neighbourhood (d : Double) : Neighbourhood :=
  let m := d.significand
  ⟨4 * m, if m = twoTo 52 then 4 * m - 1 else 4 * m - 2, 4 * m + 2, d.exponent - 2, m % 2 == 0⟩

def Neighbourhood.contains (n : Neighbourhood) (digits : Nat) (place : Int) : Bool :=
  let scale (e : Int) := if 0 ≤ e then e.toNat else 0
  let x := digits * tenTo (scale place) * twoTo (scale (-n.exponent))
  let unit := tenTo (scale (-place)) * twoTo (scale n.exponent)
  if n.closed then decide (n.low * unit ≤ x ∧ x ≤ n.high * unit)
  else decide (n.low * unit < x ∧ x < n.high * unit)

/-- The decimal with its last digit at `place` that reads back, if one does: of the two around
the value the nearer, the larger on a tie. -/
def readsBackAt (n : Neighbourhood) (num den : Nat) (place : Int) : Option Nat :=
  let x := if 0 ≤ place then num else num * tenTo (-place).toNat
  let y := if 0 ≤ place then den * tenTo place.toNat else den
  let below := x / y
  match n.contains below place, n.contains (below + 1) place with
  | true, true => some (if 2 * (x % y) < y then below else below + 1)
  | true, false => some below
  | false, true => some (below + 1)
  | false, false => none

def shortestFrom (n : Neighbourhood) (num den : Nat) (place : Int) : Nat → Nat × Int
  | 0 => (num / den, 0)
  | tries + 1 =>
    match readsBackAt n num den place with
    | some digits => (digits, place)
    | none => shortestFrom n num den (place - 1) tries

def shortest (d : Double) : Nat × Int :=
  let (num, den) := d.fraction
  shortestFrom d.neighbourhood num den (floorLog10 num den) 17

def dropTrailingZeros (cs : List Char) : List Char := (cs.reverse.dropWhile (· == '0')).reverse

def positional (digits : Nat) (place : Int) : String :=
  let ds := Nat.toDigits 10 digits
  if 0 ≤ place then String.ofList (ds ++ List.replicate place.toNat '0')
  else
    let width := (-place).toNat
    let ds := List.replicate (width + 1 - ds.length) '0' ++ ds
    let whole := ds.take (ds.length - width)
    let part := dropTrailingZeros (ds.drop (ds.length - width))
    String.ofList (if part.isEmpty then whole else whole ++ '.' :: part)

def text (d : Double) : String :=
  if d.isNaN then "NaN"
  else
    let sign := if d.negative then "-" else ""
    if d.isInfinite then sign ++ "inf"
    else if d.magnitude = 0 then sign ++ "0"
    else
      let (digits, place) := d.shortest
      sign ++ positional digits place

end RecordStore.Double
