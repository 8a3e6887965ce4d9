import RecordStore.Toml.Scalar

namespace RecordStore

/-- How a table came about, which decides who may add to it. -/
inductive TomlTableKind where
  /-- Named on the way to a header further down. -/
  | implied
  /-- Named on the way of a dotted key. -/
  | dotted
  /-- Opened by a header of its own. -/
  | opened
  /-- Written in braces, and complete. -/
  | inline
deriving DecidableEq, Repr

inductive Toml where
  | scalar (s : TomlScalar)
  | string (s : String)
  | array (items : List Toml)
  | table (kind : TomlTableKind) (entries : List (String × Toml))
  /-- Tables opened one after the other by headers in double brackets. -/
  | tables (items : List (List (String × Toml)))
deriving Repr, Inhabited

abbrev TomlTable := List (String × Toml)

namespace TomlTable

/-- Changes the table at the end of a path, making the tables that are missing on the way. The path
goes on in the last of a row of tables, and never into a complete table. A dotted key does not
enter a table that a header has opened. -/
def descend (kind : TomlTableKind) (change : Option TomlTableKind → TomlTable → Option TomlTable) :
    Option TomlTableKind → List String → TomlTable → Option TomlTable
  | here, [], t => change here t
  | _, key :: keys, t =>
    match List.lookup key t with
    | none => do
      return t ++ [(key, .table kind (← descend kind change (some kind) keys []))]
    | some (.table found sub) => do
      guard (found != .inline && (kind != .dotted || found != .opened))
      let sub ← descend kind change (some found) keys sub
      return t.map fun e => if e.1 = key then (key, .table found sub) else e
    | some (.tables items) => do
      let last ← items.getLast?
      let last ← descend kind change (some .opened) keys last
      return t.map fun e => if e.1 = key then (key, .tables (items.dropLast ++ [last])) else e
    | some _ => none

/-- Assigns to a dotted key. Only tables that dotted keys have made take in a name after a
point. -/
def assign (key : List String) (v : Toml) (t : TomlTable) : Option TomlTable := do
  let name ← key.getLast?
  let add (here : Option TomlTableKind) (t : TomlTable) : Option TomlTable := do
    guard ((here.isNone || here == some .dotted) && (List.lookup name t).isNone)
    return t ++ [(name, v)]
  descend .dotted add none key.dropLast t

def openTable (name : String) (_here : Option TomlTableKind) (t : TomlTable) : Option TomlTable :=
  match List.lookup name t with
  | none => some (t ++ [(name, .table .opened [])])
  | some (.table .implied sub) =>
    some (t.map fun e => if e.1 = name then (name, .table .opened sub) else e)
  | some _ => none

def openItem (name : String) (_here : Option TomlTableKind) (t : TomlTable) : Option TomlTable :=
  match List.lookup name t with
  | none => some (t ++ [(name, .tables [[]])])
  | some (.tables items) =>
    some (t.map fun e => if e.1 = name then (name, .tables (items ++ [[]])) else e)
  | some _ => none

end TomlTable

end RecordStore
