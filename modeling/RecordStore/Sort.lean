import RecordStore.Error
import RecordStore.Value.Order
import RecordStore.Value.Path
import RecordStore.Value.Text

namespace RecordStore

inductive Direction where
  | ascending
  | descending
deriving DecidableEq, Repr, Inhabited

structure SortKey where
  field : String
  direction : Direction
deriving DecidableEq, Repr, Inhabited

namespace Direction

def toValue : Direction → Value
  | ascending => .int32 1
  | descending => .int32 (-1)

/-- Reads one or minus one of any numeric kind but decimal, or a word in any capitalisation. -/
def ofValue? : Value → Option Direction
  | .int32 n => if n = 1 then some ascending else if n = -1 then some descending else none
  | .int64 n => if n = 1 then some ascending else if n = -1 then some descending else none
  | .double d =>
    if d.isUnit then some (if d.negative then descending else ascending) else none
  | .string s =>
    match String.ofList (s.toList.map Char.toLower) with
    | "asc" => some ascending
    | "desc" => some descending
    | _ => none
  | _ => none

def orient : Direction → Ordering → Ordering
  | ascending, o => o
  | descending, o => o.swap

end Direction

structure SortFault where
  field : String
  direction : Value

def SortFault.toError (f : SortFault) : StoreError :=
  .invalidSort ("direction for '" ++ f.field ++ "' must be 1, -1, \"asc\" or \"desc\", got " ++
    f.direction.text)

namespace SortKey

def ofDocument : Document → Except SortFault (List SortKey)
  | [] => .ok []
  | (field, v) :: entries => do
    let some direction := Direction.ofValue? v | throw ⟨field, v⟩
    let keys ← ofDocument entries
    return ⟨field, direction⟩ :: keys

/-- A document of directions; a later key for the same field overwrites the earlier one. -/
def toDocument (keys : List SortKey) : Document :=
  Document.ofList (keys.map fun k => (k.field, k.direction.toValue))

def compareFields : Option Value → Option Value → Ordering
  | some a, some b => a.compare b
  | some _, none => .gt
  | none, some _ => .lt
  | none, none => .eq

def compare (k : SortKey) (a b : Document) : Ordering :=
  let path := Path.ofString k.field
  k.direction.orient (compareFields (a.getPath path) (b.getPath path))

def compareAll : List SortKey → Document → Document → Ordering
  | [], _, _ => .eq
  | k :: keys, a, b => (k.compare a b).then (compareAll keys a b)

def insertDownwards (keys : List SortKey) (d : Document) : List Document → List Document
  | [] => [d]
  | e :: es => if compareAll keys d e = .lt then e :: insertDownwards keys d es else d :: e :: es

/-- Sorts records by insertion from the end, which keeps the order of those that compare equal. -/
def sort (keys : List SortKey) (ds : List Document) : List Document :=
  (ds.foldl (fun sorted d => insertDownwards keys d sorted) []).reverse

end SortKey

end RecordStore
