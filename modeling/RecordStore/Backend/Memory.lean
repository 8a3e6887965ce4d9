import RecordStore.Backend.Basic
import RecordStore.Query.Match

namespace RecordStore

structure Identifier where
  name : String
  value : Value

namespace Identifier

def ofDocument? : Document → Option Identifier
  | [(name, v)] => some ⟨name, v⟩
  | _ => none

def matchesRecord (id : Identifier) (d : Document) : Bool :=
  match d.get? id.name with
  | some v => v.same id.value
  | none => false

end Identifier

/-- Collections by name. A collection stays when its last record goes. -/
structure Collections where
  entries : List (String × List Document)
deriving Inhabited

namespace Collections

def empty : Collections := ⟨[]⟩

def records? (c : Collections) (name : String) : Option (List Document) := c.entries.lookup name

def records (c : Collections) (name : String) : List Document := (c.records? name).getD []

def setEntry (name : String) (ds : List Document) :
    List (String × List Document) → List (String × List Document)
  | [] => [(name, ds)]
  | (k, old) :: rest => if k = name then (k, ds) :: rest else (k, old) :: setEntry name ds rest

def set (c : Collections) (name : String) (ds : List Document) : Collections :=
  ⟨setEntry name ds c.entries⟩

def size (c : Collections) (name : String) : Nat := (c.records name).length

def names (c : Collections) : List String :=
  (c.entries.map Prod.fst).mergeSort fun a b => decide (a ≤ b)

def create? (c : Collections) (name : String) (id : Identifier) (d : Document) :
    Option Collections :=
  let ds := c.records name
  if ds.any id.matchesRecord then none else some (c.set name (ds ++ [d]))

def read? (c : Collections) (name : String) (id : Identifier) : Option Document :=
  (c.records name).find? id.matchesRecord

def changeFirst (p : Document → Bool) (f : Document → Document) :
    List Document → Option (List Document)
  | [] => none
  | d :: ds => if p d then some (f d :: ds) else (changeFirst p f ds).map (d :: ·)

def update? (c : Collections) (name : String) (id : Identifier) (p : Patch) :
    Option Collections :=
  (changeFirst id.matchesRecord p.apply (c.records name)).map (c.set name)

/-- Removes every record with the identifier. -/
def delete? (c : Collections) (name : String) (id : Identifier) : Option Collections :=
  let ds := c.records name
  if ds.any id.matchesRecord then some (c.set name (ds.filter fun d => !id.matchesRecord d))
  else none

def hits (c : Collections) (name : String) (es : List Expression) : List Document :=
  (c.records name).filter fun d => d.satisfies es

def find (c : Collections) (name : String) (es : List Expression) (p : Projection)
    (params : FindParams) : List Document :=
  (params.page (SortKey.sort params.sort (c.hits name es))).map p.apply

def count (c : Collections) (name : String) (es : List Expression) : Nat := (c.hits name es).length

def matchRecords (c : Collections) (name : String) (es : List Expression) : List LogRecord :=
  (c.records name).flatMap fun d => d.matchRecords es

def findRecord (c : Collections) (name : String) (es : List Expression) : LogRecord :=
  .trace ("find on '" ++ name ++ "': " ++ toString (c.hits name es).length ++ " of " ++
    toString (c.size name) ++ " matched")

end Collections

namespace Backend

def identifierOf (d : Document) : BackendM Collections Identifier :=
  match Identifier.ofDocument? d with
  | some id => pure id
  | none => throw ("identifier must have exactly one entry, got " ++ d.text)

def commit (c? : Option Collections) : BackendM Collections Bool := do
  match c? with
  | some c =>
    Session.setContents c
    return true
  | none => return false

def memory : Backend Collections where
  create name identifier d := do
    let id ← identifierOf identifier
    commit ((← Session.getContents).create? name id d)
  read name identifier p := do
    let id ← identifierOf identifier
    return ((← Session.getContents).read? name id).map p.apply
  update name identifier p := do
    let id ← identifierOf identifier
    commit ((← Session.getContents).update? name id p)
  delete name identifier := do
    let id ← identifierOf identifier
    commit ((← Session.getContents).delete? name id)
  find name es p params := do
    let c ← Session.getContents
    match c.records? name with
    | none => return []
    | some _ =>
      Session.emit (c.matchRecords name es)
      Session.emit [c.findRecord name es]
      return c.find name es p params
  count name es := do
    let c ← Session.getContents
    Session.emit (c.matchRecords name es)
    return c.count name es

end Backend

end RecordStore
