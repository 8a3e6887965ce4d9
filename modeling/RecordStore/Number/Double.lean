import RecordStore.Number.Power

namespace RecordStore

structure Double where
  bits : UInt64
deriving DecidableEq, Repr, Inhabited

namespace Double

def magnitude (d : Double) : Nat := d.bits.toNat % twoTo 63

def negative (d : Double) : Bool := decide (twoTo 63 ≤ d.bits.toNat)

def infinityMagnitude : Nat := 2047 * twoTo 52

def isNaN (d : Double) : Bool := decide (infinityMagnitude < d.magnitude)

def isInfinite (d : Double) : Bool := decide (d.magnitude = infinityMagnitude)

def isFinite (d : Double) : Bool := decide (d.magnitude < infinityMagnitude)

def ofMagnitude (negative : Bool) (magnitude : Nat) : Double :=
  ⟨UInt64.ofNat (if negative then twoTo 63 + magnitude else magnitude)⟩

def infinity (negative : Bool) : Double := ofMagnitude negative infinityMagnitude

def nan : Double := ⟨0x7ff8000000000000⟩

/-- The integer whose order is the order of the numbers; both zeros share it. -/
def key (d : Double) : Int := if d.negative then -(d.magnitude : Int) else d.magnitude

def compare? (a b : Double) : Option Ordering :=
  if a.isNaN || b.isNaN then none else some (compare a.key b.key)

def same (a b : Double) : Bool := a.compare? b == some .eq

/-- The integer that orders all patterns: negative zero comes below zero, a NaN beyond the
infinity of its sign. -/
def totalKey (d : Double) : Int := if d.negative then -(d.magnitude : Int) - 1 else d.magnitude

def totalCompare (a b : Double) : Ordering := compare a.totalKey b.totalKey

/-- The magnitude of a finite number is `significand * 2 ^ exponent`. -/
def significand (d : Double) : Nat :=
  if d.magnitude < twoTo 52 then d.magnitude else twoTo 52 + d.magnitude % twoTo 52

def exponent (d : Double) : Int :=
  if d.magnitude < twoTo 52 then -1074 else (d.magnitude / twoTo 52 : Nat) - 1075

def fraction (d : Double) : Nat × Nat :=
  if 0 ≤ d.exponent then (d.significand * twoTo d.exponent.toNat, 1)
  else (d.significand, twoTo (-d.exponent).toNat)

/-- The quotient rounded to the nearest integer, a half going to the even neighbour. -/
def roundQuotient (num den : Nat) : Nat :=
  let q := num / den
  let r := num % den
  if 2 * r < den then q
  else if den < 2 * r then q + 1
  else if q % 2 = 0 then q else q + 1

def floorLog2 (num den : Nat) : Int :=
  let e : Int := (Nat.log2 num : Int) - Nat.log2 den
  if 0 ≤ e then (if num < den * twoTo e.toNat then e - 1 else e)
  else if num * twoTo (-e).toNat < den then e - 1 else e

/-- The number nearest to `num / den`, a tie going to the even significand; from half a step
beyond the largest finite number on it is the infinity. -/
def nearest (negative : Bool) (num den : Nat) : Double :=
  if num = 0 then ofMagnitude negative 0
  else
    let e := max (floorLog2 num den - 52) (-1074)
    let q := if 0 ≤ e then roundQuotient num (den * twoTo e.toNat)
      else roundQuotient (num * twoTo (-e).toNat) den
    ofMagnitude negative (min ((e + 1074).toNat * twoTo 52 + q) infinityMagnitude)

def ofInt (n : Int) : Double := nearest (decide (n < 0)) n.natAbs 1

/-- The number nearest to `coefficient * 10 ^ exponent`. Exponents out of the range of doubles
are answered without computing the power. -/
def ofScientific (negative : Bool) (coefficient : Nat) (exponent : Int) : Double :=
  if coefficient = 0 then ofMagnitude negative 0
  else if 310 ≤ exponent then infinity negative
  else if (Nat.log2 coefficient : Int) + 1 + 3 * exponent < -1080 then ofMagnitude negative 0
  else if 0 ≤ exponent then nearest negative (coefficient * tenTo exponent.toNat) 1
  else nearest negative coefficient (tenTo (-exponent).toNat)

def mul (a b : Double) : Double :=
  let x := a.fraction
  let y := b.fraction
  nearest false (x.1 * y.1) (x.2 * y.2)

def div (a b : Double) : Double :=
  let x := a.fraction
  let y := b.fraction
  nearest false (x.1 * y.2) (x.2 * y.1)

def isUnit (d : Double) : Bool :=
  let x := d.fraction
  d.isFinite && decide (((x.1 : Int) - x.2).natAbs * twoTo 52 < x.2)

end Double

end RecordStore
