import RecordStore.Error
import RecordStore.Log
import RecordStore.Value.Basic

namespace RecordStore

structure Storable where
  name : String
  collection : String
  /-- Attributes that identify a record, the preferred one first. -/
  identifiers : List String
deriving DecidableEq, Repr, Inhabited

namespace Storable

def named (name : String) : Storable := ⟨name, name, ["id"]⟩

def isUsable : Value → Bool
  | .null | .undefined => false
  | _ => true

/-- The first identifying attribute that a document holds, among those named. -/
def firstIdentifier? (d : Document) : List String → Option Document
  | [] => none
  | name :: names =>
    match d.get? name with
    | some v => if isUsable v then some [(name, v)] else firstIdentifier? d names
    | none => firstIdentifier? d names

def identifierOf (t : Storable) (d : Document) : Except StoreError Document :=
  match firstIdentifier? d t.identifiers with
  | some id => .ok id
  | none => .error (.missingIdentifier t.name)

end Storable

structure Storables where
  entries : List Storable
deriving DecidableEq, Repr, Inhabited

namespace Storables

def empty : Storables := ⟨[]⟩

def find? (s : Storables) (name : String) : Option Storable := s.entries.find? fun t => t.name == name

def get (s : Storables) (name : String) : Except StoreError Storable :=
  match s.find? name with
  | some t => .ok t
  | none => .error (.unknownStorable name)

def register (s : Storables) (t : Storable) : Except StoreError Storables :=
  if t.identifiers = [] then
    .error (.config ("storable '" ++ t.name ++ "' declares no identifier attribute"))
  else if (s.find? t.name).isSome then .error (.duplicateStorable t.name)
  else .ok ⟨s.entries ++ [t]⟩

def registerRecords (s : Storables) (t : Storable) : List LogRecord :=
  match s.register t with
  | .ok _ => [.debug ("registered storable '" ++ t.name ++ "' -> '" ++ t.collection ++ "'")]
  | .error _ => []

def names (s : Storables) : List String :=
  (s.entries.map Storable.name).mergeSort fun a b => decide (a ≤ b)

end Storables

end RecordStore
