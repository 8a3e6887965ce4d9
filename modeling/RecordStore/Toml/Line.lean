import RecordStore.Toml.Syntax

namespace RecordStore

inductive TomlLine where
  | blank
  | assign (key : List String) (v : Toml)
  | table (key : List String)
  | item (key : List String)

namespace TomlLine

def scanLine (fuel : Nat) : Scan TomlLine := do
  Toml.skipSpaces
  let line ← (do
    match ← Scan.peek? with
    | none | some '#' | some '\n' | some '\r' => pure .blank
    | some '[' =>
      if ← Scan.accept "[[" then
        let name ← Toml.key fuel
        Scan.expect "]]"
        pure (.item name)
      else
        Scan.expect "["
        let name ← Toml.key fuel
        Scan.expect "]"
        pure (.table name)
    | _ =>
      let name ← Toml.key fuel
      Scan.expect "="
      Toml.skipSpaces
      return .assign name (← Toml.scanValue fuel Toml.maxDepth))
  Toml.skipSpaces
  Toml.skipComment
  return line

def scanLines : Nat → Scan (List TomlLine)
  | 0 => Scan.refuse
  | fuel + 1 => do
    let line ← scanLine fuel
    if ← Toml.newline then return line :: (← scanLines fuel)
    else
      Scan.require (← Scan.atEnd)
      return [line]

end TomlLine

namespace TomlTable

structure Reading where
  root : TomlTable
  current : List String

def Reading.step (r : Reading) : TomlLine → Option Reading
  | .blank => some r
  | .assign key v => do
    let root ← descend .implied (fun _ t => assign key v t) none r.current r.root
    return ⟨root, r.current⟩
  | .table key => do
    let root ← descend .implied (openTable (← key.getLast?)) none key.dropLast r.root
    return ⟨root, key⟩
  | .item key => do
    let root ← descend .implied (openItem (← key.getLast?)) none key.dropLast r.root
    return ⟨root, key⟩

def ofText? (text : String) : Option TomlTable := do
  let cs := text.toList
  let text := if cs.head? = some '\ufeff' then String.ofList (cs.drop 1) else text
  let lines ← Scan.runAll? (TomlLine.scanLines (3 * text.length + 3)) text
  let reading ← lines.foldlM Reading.step ⟨[], []⟩
  return reading.root

end TomlTable

end RecordStore
