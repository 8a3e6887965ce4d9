import RecordStore.Number.Numeral
import RecordStore.Text.Scan

namespace RecordStore

/-- A number as its spelling classes it: an integer without a sign, an integer with a minus sign,
or a fraction. -/
inductive JsonNumber where
  | natural (n : Nat)
  | negative (n : Int)
  | real (d : Double)
deriving DecidableEq, Repr

namespace JsonNumber

/-- Digits taken into a significand of 64 bits until the first that does not fit, and the number of
digits taken. -/
def accumulate (significand : Nat) : List Char → Nat × Nat
  | [] => (significand, 0)
  | c :: cs =>
    let next := 10 * significand + Numeral.digitValue c
    if next < twoTo 64 then
      let (s, taken) := accumulate next cs
      (s, taken + 1)
    else (significand, 0)

def scaleDown (d : Double) (e : Nat) : Double :=
  if e ≤ 308 then d.div (.ofScientific false 1 e)
  else if d.magnitude = 0 then d
  else scaleDown (d.div (.ofScientific false 1 308)) (e - 308)
termination_by e

def scale (d : Double) (e : Int) : Option Double :=
  if 0 ≤ e then
    if d.magnitude = 0 then some d
    else if 308 < e then none
    else
      let r := d.mul (.ofScientific false 1 e)
      if r.isInfinite then none else some r
  else some (scaleDown d (-e).toNat)

/-- The sign is put on at the end, so a negative zero keeps it. -/
def signed (negative : Bool) (d : Double) : Double := .ofMagnitude negative d.magnitude

/-- The number of its digits before and after the point and its exponent. Digits that do not fit
into the significand only move the point. -/
def ofParts? (negative : Bool) (whole : List Char) (part : Option (List Char))
    (exponent : Option Int) : Option JsonNumber :=
  let (significand, taken) := accumulate 0 whole
  let dropped := whole.length - taken
  match part, exponent with
  | none, none =>
    if 0 < dropped then
      (scale (.ofInt significand) dropped).map fun d => .real (signed negative d)
    else if !negative then some (.natural significand)
    else if 0 < significand ∧ significand ≤ twoTo 63 then some (.negative (-(significand : Int)))
    else some (.real (signed true (.ofInt significand)))
  | part, exponent =>
    let (significand, taken) := accumulate significand (part.getD [])
    (scale (.ofInt significand) (dropped - taken + exponent.getD 0)).map fun d =>
      .real (signed negative d)

def digits1 : Scan (List Char) := do
  let ds ← Scan.takeWhile Char.isDigit
  Scan.require (!ds.isEmpty)
  pure ds

def wholeDigits : Scan (List Char) := do
  let ds ← digits1
  Scan.require (ds.head? != some '0' || ds.length == 1)
  pure ds

def fractionPart : Scan (Option (List Char)) := do
  if ← Scan.accept "." then some <$> digits1 else pure none

def exponentPart : Scan (Option Int) := do
  match ← Scan.peek? with
  | some 'e' | some 'E' =>
    let _ ← Scan.next
    let negative ← Scan.accept "-"
    if !negative then let _ ← Scan.accept "+"
    let n := Numeral.ofDigits (← digits1)
    pure (some (if negative then -(n : Int) else n))
  | _ => pure none

def scan : Scan JsonNumber := do
  let negative ← Scan.accept "-"
  let whole ← wholeDigits
  let part ← fractionPart
  let exponent ← exponentPart
  match ofParts? negative whole part exponent with
  | some n => pure n
  | none => Scan.refuse

end JsonNumber

end RecordStore
