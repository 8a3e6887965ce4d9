import RecordStore.Config
import RecordStore.Selection.Selector
import RecordStore.Sort

namespace RecordStore

structure LoadOptions where
  selector : Selector := .all
  throwIfMissing : Bool := true

/-- Flags that are left open follow from whether the record is new. -/
structure SaveOptions where
  isNew : Bool := false
  throwIfMissing : Option Bool := none
  throwIfExists : Option Bool := none
deriving DecidableEq, Repr

structure DeleteOptions where
  throwIfMissing : Bool := true
deriving DecidableEq, Repr

structure FindOptions where
  selector : Selector := .all
  sort : List SortKey := []
  skip : Option Nat := none
  limit : Option Nat := none

structure SaveFlags where
  throwIfMissing : Bool
  throwIfExists : Bool
deriving DecidableEq, Repr

def sizeValue (n : Nat) : Value := .int64 (Int64.ofNat (min n (twoTo 63 - 1)))

def optionalEntry (name : String) : Option Value → Document
  | none => []
  | some v => [(name, v)]

def LoadOptions.toDocument (o : LoadOptions) : Document :=
  [("attributeSelector", o.selector.toValue), ("throwIfMissing", .boolean o.throwIfMissing)]

namespace SaveOptions

/-- The flags in force. A save that must find a record and must not find it is contradictory. -/
def resolve? (o : SaveOptions) : Option SaveFlags :=
  let missing := o.throwIfMissing.getD !o.isNew
  let exist := o.throwIfExists.getD o.isNew
  if missing && exist then none else some ⟨missing, exist⟩

def contradiction : StoreError :=
  .invalidOptions "'throw_if_missing' and 'throw_if_exists' cannot both be true"

def resolve (o : SaveOptions) : Except StoreError SaveFlags :=
  match o.resolve? with
  | some flags => .ok flags
  | none => .error contradiction

def toDocument (o : SaveOptions) : Document :=
  [("isNew", .boolean o.isNew)] ++ optionalEntry "throwIfMissing" (o.throwIfMissing.map .boolean) ++
    optionalEntry "throwIfExists" (o.throwIfExists.map .boolean)

end SaveOptions

def DeleteOptions.toDocument (o : DeleteOptions) : Document :=
  [("throwIfMissing", .boolean o.throwIfMissing)]

def FindOptions.toDocument (o : FindOptions) : Document :=
  [("attributeSelector", o.selector.toValue), ("sort", .document (SortKey.toDocument o.sort))] ++
    optionalEntry "skip" (o.skip.map sizeValue) ++ optionalEntry "limit" (o.limit.map sizeValue)

end RecordStore
