import RecordStore.Value.Equality

namespace RecordStore

structure Path where
  first : String
  rest : List String
deriving DecidableEq, Repr, Inhabited

namespace Path

def names (p : Path) : List String := p.first :: p.rest

/-- The runs of characters between points: the first one, and those after each point. -/
def splitPoints : List Char → List Char × List (List Char)
  | [] => ([], [])
  | c :: cs =>
    let (run, runs) := splitPoints cs
    if c = '.' then ([], run :: runs) else (c :: run, runs)

def ofString (s : String) : Path :=
  let (run, runs) := splitPoints s.toList
  ⟨String.ofList run, runs.map String.ofList⟩

/-- The path of an attribute below another one; the empty text is the place of the record
itself. -/
def join (parent name : String) : String := if parent = "" then name else parent ++ "." ++ name

end Path

namespace Document

def getAt (d : Document) (name : String) : List String → Option Value
  | [] => get? d name
  | next :: rest =>
    match get? d name with
    | some (.document sub) => getAt sub next rest
    | _ => none

/-- Assigns the value at a path. What stands in the way of the path, or is missing, becomes a
document. -/
def setAt (d : Document) (name : String) (v : Value) : List String → Document
  | [] => insert d name v
  | next :: rest =>
    match get? d name with
    | some (.document sub) => insert d name (.document (setAt sub next v rest))
    | _ => insert d name (.document (setAt [] next v rest))

def setChanges (d : Document) (name : String) (v : Value) : List String → Bool
  | [] => !v.isHeldBy (get? d name)
  | next :: rest =>
    match get? d name with
    | some (.document sub) => setChanges sub next v rest
    | _ => true

def unsetAt (d : Document) (name : String) : List String → Document
  | [] => erase d name
  | next :: rest =>
    match get? d name with
    | some (.document sub) => insert d name (.document (unsetAt sub next rest))
    | _ => d

def getPath (d : Document) (p : Path) : Option Value := getAt d p.first p.rest

def setPath (d : Document) (p : Path) (v : Value) : Document := setAt d p.first v p.rest

def setPathChanges (d : Document) (p : Path) (v : Value) : Bool := setChanges d p.first v p.rest

def unsetPath (d : Document) (p : Path) : Document := unsetAt d p.first p.rest

/-- Copies the value at a path of `src` into `dst`, keeping what `dst` already holds. In an array
the path continues in every element that is a document; other elements are copied whole. -/
def copyAt (src dst : Document) (name : String) : List String → Document
  | [] =>
    match get? src name with
    | some v => insert dst name v
    | none => dst
  | next :: rest =>
    match get? src name with
    | some (.document sub) =>
      let target := match get? dst name with
        | some (.document t) => t
        | _ => []
      insert dst name (.document (copyAt sub target next rest))
    | some (.array items) =>
      let blank := List.replicate items.length (.document [])
      let targets := match get? dst name with
        | some (.array ts) => if ts.length = items.length then ts else blank
        | _ => blank
      let copyItem : Value → Value → Value
        | .document sub, .document target => .document (copyAt sub target next rest)
        | v, _ => v
      insert dst name (.array (List.zipWith copyItem items targets))
    | _ => dst

def copyPath (src dst : Document) (p : Path) : Document := copyAt src dst p.first p.rest

end Document

end RecordStore
