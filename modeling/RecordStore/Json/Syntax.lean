import RecordStore.Json.Number
import RecordStore.Text.Hex

namespace RecordStore

inductive Json where
  | null
  | boolean (b : Bool)
  | number (n : JsonNumber)
  | string (s : String)
  | array (items : List Json)
  | object (entries : List (String × Json))
deriving Repr, Inhabited

namespace Json

def maxDepth : Nat := 127

def skipBlanks : Scan Unit := Scan.skipWhile fun c => c == ' ' || c == '\t' || c == '\n' || c == '\r'

def hexUnit : Scan Nat := do
  let cs ← Scan.take 4
  match Hex.ofFixedDigits? 4 cs with
  | some n => pure n
  | none => Scan.refuse

/-- The character of an escaped code unit. Two units of a pair are one character; a unit of a pair
on its own is refused. -/
def unicodeEscape : Scan Char := do
  let n ← hexUnit
  if n < 0xd800 || 0xdfff < n then pure (Char.ofNat n)
  else do
    Scan.require (decide (n < 0xdc00))
    Scan.expect "\\u"
    let low ← hexUnit
    Scan.require (decide (0xdc00 ≤ low ∧ low ≤ 0xdfff))
    pure (Char.ofNat (0x10000 + (n - 0xd800) * 0x400 + (low - 0xdc00)))

def escape : Scan Char := do
  match ← Scan.next with
  | '"' => pure '"'
  | '\\' => pure '\\'
  | '/' => pure '/'
  | 'b' => pure '\x08'
  | 'f' => pure '\x0c'
  | 'n' => pure '\n'
  | 'r' => pure '\r'
  | 't' => pure '\t'
  | 'u' => unicodeEscape
  | _ => Scan.refuse

def stringRest : Nat → List Char → Scan String
  | 0, _ => Scan.refuse
  | fuel + 1, done => do
    let c ← Scan.next
    if c == '"' then pure (String.ofList done.reverse)
    else if c == '\\' then stringRest fuel ((← escape) :: done)
    else do
      Scan.require (decide (0x20 ≤ c.toNat))
      stringRest fuel (c :: done)

mutual

/-- Reads a value that begins here. `fuel` bounds the steps, `depth` the levels that may
still be opened. -/
def scanValue : Nat → Nat → Scan Json
  | 0, _ => Scan.refuse
  | fuel + 1, depth => do
    match ← Scan.peek? with
    | some '"' => do Scan.expect "\""; .string <$> stringRest fuel []
    | some '[' =>
      match depth with
      | 0 => Scan.refuse
      | depth + 1 => do
        Scan.expect "["
        skipBlanks
        if ← Scan.accept "]" then pure (.array []) else .array <$> scanItems fuel depth
    | some '\x7b' =>
      match depth with
      | 0 => Scan.refuse
      | depth + 1 => do
        Scan.expect "\x7b"
        skipBlanks
        if ← Scan.accept "\x7d" then pure (.object []) else .object <$> scanEntries fuel depth
    | some 't' => do Scan.expect "true"; pure (.boolean true)
    | some 'f' => do Scan.expect "false"; pure (.boolean false)
    | some 'n' => do Scan.expect "null"; pure .null
    | _ => .number <$> JsonNumber.scan

def scanItems : Nat → Nat → Scan (List Json)
  | 0, _ => Scan.refuse
  | fuel + 1, depth => do
    let v ← scanValue fuel depth
    skipBlanks
    if ← Scan.accept "," then
      skipBlanks
      return v :: (← scanItems fuel depth)
    else
      Scan.expect "]"
      return [v]

def scanEntries : Nat → Nat → Scan (List (String × Json))
  | 0, _ => Scan.refuse
  | fuel + 1, depth => do
    Scan.expect "\""
    let name ← stringRest fuel []
    skipBlanks
    Scan.expect ":"
    skipBlanks
    let v ← scanValue fuel depth
    skipBlanks
    if ← Scan.accept "," then
      skipBlanks
      return (name, v) :: (← scanEntries fuel depth)
    else
      Scan.expect "\x7d"
      return [(name, v)]

end

def ofText? (text : String) : Option Json :=
  Scan.runAll? (do
    skipBlanks
    let v ← scanValue (2 * text.length + 2) maxDepth
    skipBlanks
    pure v) text

end Json

end RecordStore
