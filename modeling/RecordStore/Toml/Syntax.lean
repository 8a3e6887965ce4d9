import RecordStore.Text.Hex
import RecordStore.Text.Scan
import RecordStore.Toml.Table

namespace RecordStore

namespace Toml

/-- Arrays and tables in braces may be nested this deep, both counted together. -/
def maxDepth : Nat := 80

def maxNames : Nat := 80

def isSpace (c : Char) : Bool := c == ' ' || c == '\t'

def skipSpaces : Scan Unit := Scan.skipWhile isSpace

def isText (c : Char) : Bool := c == '\t' || (decide (0x20 ≤ c.toNat) && c.toNat != 0x7f)

def lineEnd : Scan (List Char) := do
  if ← Scan.accept "\n" then return ['\n']
  if ← Scan.accept "\r\n" then return ['\r', '\n']
  return []

def newline : Scan Bool := do return !(← lineEnd).isEmpty

def skipComment : Scan Unit := do
  if ← Scan.accept "#" then Scan.skipWhile isText

def skipLines : Nat → Scan Unit
  | 0 => Scan.refuse
  | fuel + 1 => do
    skipSpaces
    skipComment
    if ← newline then skipLines fuel

def unicodeEscape (width : Nat) : Scan Char := do
  match Hex.ofFixedDigits? width (← Scan.take width) with
  | some n => do
    Scan.require (decide (n < 0xd800 ∨ (0xdfff < n ∧ n < 0x110000)))
    pure (Char.ofNat n)
  | none => Scan.refuse

def escape : Scan Char := do
  match ← Scan.next with
  | 'b' => pure '\x08'
  | 't' => pure '\t'
  | 'n' => pure '\n'
  | 'f' => pure '\x0c'
  | 'r' => pure '\r'
  | 'e' => pure '\x1b'
  | '"' => pure '"'
  | '\\' => pure '\\'
  | 'x' => unicodeEscape 2
  | 'u' => unicodeEscape 4
  | 'U' => unicodeEscape 8
  | _ => Scan.refuse

def lineString (quote : Char) (escapes : Bool) : Nat → List Char → Scan String
  | 0, _ => Scan.refuse
  | fuel + 1, done => do
    let c ← Scan.next
    if c == quote then pure (String.ofList done.reverse)
    else if escapes && c == '\\' then lineString quote escapes fuel ((← escape) :: done)
    else do
      Scan.require (isText c)
      lineString quote escapes fuel (c :: done)

/-- A backslash at the end of a line swallows what follows up to the next text. -/
def lineEndEscape (fuel : Nat) : Scan Bool := fun cs =>
  match (do skipSpaces; newline).run cs with
  | some (true, rest) => some (true, skipBlankLines fuel rest)
  | _ => some (false, cs)
where
  skipBlankLines : Nat → List Char → List Char
    | 0, cs => cs
    | fuel + 1, cs =>
      match (do skipSpaces; newline).run cs with
      | some (true, rest) => skipBlankLines fuel rest
      | _ => cs.dropWhile isSpace

/-- The rest of a string in triple quotes. Up to two quotes may stand before the closing three. Line
ends are kept as they are written. -/
def blockString (quote : Char) (escapes : Bool) : Nat → List Char → Scan String
  | 0, _ => Scan.refuse
  | fuel + 1, done => do
    let quotes ← Scan.takeWhile (· == quote)
    if 3 ≤ quotes.length then
      Scan.require (decide (quotes.length ≤ 5))
      pure (String.ofList (done.reverse ++ quotes.drop 3))
    else if 0 < quotes.length then blockString quote escapes fuel (quotes ++ done)
    else do
      let ending ← lineEnd
      if !ending.isEmpty then blockString quote escapes fuel (ending.reverse ++ done)
      else
        let c ← Scan.next
        if escapes && c == '\\' then
          if ← lineEndEscape fuel then blockString quote escapes fuel done
          else blockString quote escapes fuel ((← escape) :: done)
        else
          Scan.require (isText c)
          blockString quote escapes fuel (c :: done)

def quoted (quote : Char) (escapes : Bool) (fuel : Nat) : Scan String := do
  if ← Scan.accept (String.ofList [quote, quote, quote]) then
    let _ ← newline
    blockString quote escapes fuel []
  else
    let _ ← Scan.next
    lineString quote escapes fuel []

def isBareKey (c : Char) : Bool := c.isAlphanum || c == '_' || c == '-'

def keyPart (fuel : Nat) : Scan String := do
  match ← Scan.peek? with
  | some '"' => do let _ ← Scan.next; lineString '"' true fuel []
  | some '\'' => do let _ ← Scan.next; lineString '\'' false fuel []
  | _ => do
    let cs ← Scan.takeWhile isBareKey
    Scan.require (!cs.isEmpty)
    pure (String.ofList cs)

def keyParts : Nat → Scan (List String)
  | 0 => Scan.refuse
  | fuel + 1 => do
    skipSpaces
    let part ← keyPart fuel
    skipSpaces
    if ← Scan.accept "." then return part :: (← keyParts fuel) else return [part]

def key (fuel : Nat) : Scan (List String) := do
  let parts ← keyParts fuel
  Scan.require (decide (parts.length ≤ maxNames))
  return parts

def endsScalar (c : Char) : Bool :=
  isSpace c || c == '\n' || c == '\r' || c == ',' || c == ']' || c == '\x7d' || c == '#' || c == '='

def bareScalar : Scan TomlScalar := do
  let cs ← Scan.takeWhile fun c => !endsScalar c
  let rest ← get
  let longer := cs ++ ' ' :: (rest.drop 1).takeWhile fun c => !endsScalar c
  let dated := (TomlScalar.date? cs).any (fun d => d.2.isEmpty) && rest.head? == some ' ' &&
    (rest.drop 1).head?.any Char.isDigit
  if dated then set (rest.drop (longer.length - cs.length))
  match TomlScalar.ofText? (if dated then longer else cs) with
  | some s => pure s
  | none => Scan.refuse

mutual

def scanValue : Nat → Nat → Scan Toml
  | 0, _ => Scan.refuse
  | fuel + 1, depth => do
    match ← Scan.peek? with
    | some '"' => .string <$> quoted '"' true fuel
    | some '\'' => .string <$> quoted '\'' false fuel
    | some '[' =>
      match depth with
      | 0 => Scan.refuse
      | depth + 1 => do Scan.expect "["; .array <$> scanItems fuel depth
    | some '\x7b' =>
      match depth with
      | 0 => Scan.refuse
      | depth + 1 => do
        Scan.expect "\x7b"
        .table .inline <$> scanEntries fuel depth []
    | _ => .scalar <$> bareScalar

def scanItems : Nat → Nat → Scan (List Toml)
  | 0, _ => Scan.refuse
  | fuel + 1, depth => do
    skipLines fuel
    if ← Scan.accept "]" then return []
    let v ← scanValue fuel depth
    skipLines fuel
    if ← Scan.accept "," then return v :: (← scanItems fuel depth)
    else
      Scan.expect "]"
      return [v]

/-- The entries of a table in braces. Lines may end and comments stand wherever blanks may, only
not inside a key. -/
def scanEntries : Nat → Nat → TomlTable → Scan TomlTable
  | 0, _, _ => Scan.refuse
  | fuel + 1, depth, done => do
    skipLines fuel
    if ← Scan.accept "\x7d" then return done
    let name ← key fuel
    skipLines fuel
    Scan.expect "="
    skipLines fuel
    let v ← scanValue fuel depth
    skipLines fuel
    match TomlTable.assign name v done with
    | none => Scan.refuse
    | some done =>
      if ← Scan.accept "," then scanEntries fuel depth done
      else
        Scan.expect "\x7d"
        return done

end

end Toml

end RecordStore
