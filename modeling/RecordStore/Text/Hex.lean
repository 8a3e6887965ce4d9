namespace RecordStore.Hex

def digitChar (n : Nat) : Char := if n < 10 then Char.ofNat (48 + n) else Char.ofNat (87 + n)

def digit? (c : Char) : Option Nat :=
  if c.isDigit then some (c.toNat - 48)
  else if 'a' ≤ c ∧ c ≤ 'f' then some (c.toNat - 87)
  else if 'A' ≤ c ∧ c ≤ 'F' then some (c.toNat - 55)
  else none

def fixedDigits : Nat → Nat → List Char
  | 0, _ => []
  | width + 1, n => fixedDigits width (n / 16) ++ [digitChar (n % 16)]

def encode (bytes : List UInt8) : String :=
  String.ofList (bytes.flatMap fun b => fixedDigits 2 b.toNat)

def decode : List Char → Option (List UInt8)
  | [] => some []
  | [_] => none
  | a :: b :: cs => do
    let high ← digit? a
    let low ← digit? b
    return UInt8.ofNat (16 * high + low) :: (← decode cs)

def ofFixedDigits? (width : Nat) (cs : List Char) : Option Nat :=
  if cs.length = width then
    cs.foldlM (fun n c => (digit? c).map fun d => 16 * n + d) 0
  else none

def ofNat (n : Nat) : String := String.ofList (Nat.toDigits 16 n)

end RecordStore.Hex
