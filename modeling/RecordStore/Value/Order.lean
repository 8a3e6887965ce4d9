import RecordStore.Value.Equality

namespace RecordStore

/-- A number as it is compared: integers stay exact, all else is a double. -/
inductive Quantity where
  | integer (n : Int)
  | real (d : Double)
deriving DecidableEq, Repr

namespace Quantity

def toDouble : Quantity → Double
  | integer n => .ofInt n
  | real d => d

def compare? : Quantity → Quantity → Option Ordering
  | integer m, integer n => some (compare m n)
  | a, b => a.toDouble.compare? b.toDouble

def totalCompare : Quantity → Quantity → Ordering
  | integer m, integer n => compare m n
  | a, b => a.toDouble.totalCompare b.toDouble

end Quantity

namespace Value

def quantity? : Value → Option Quantity
  | int32 n => some (.integer n.toInt)
  | int64 n => some (.integer n.toInt)
  | double d => some (.real d)
  | decimal d => some (.real d.toDouble)
  | _ => none

def same (a b : Value) : Bool :=
  match a.quantity?, b.quantity? with
  | some x, some y => x.compare? y == some .eq
  | _, _ => a.equal b

def compareText (a b : String) : Ordering := compareOfLessAndEq a b

/-- The order that range conditions use; `none` for values that are not comparable. -/
def compare? (a b : Value) : Option Ordering :=
  match a.quantity?, b.quantity? with
  | some x, some y => x.compare? y
  | _, _ =>
    match a, b with
    | string s, string t => some (compareText s t)
    | boolean p, boolean q => some (Ord.compare p q)
    | dateTime s, dateTime t => some (Ord.compare s.toInt t.toInt)
    | _, _ => none

def rank : Value → Nat
  | minKey => 0
  | null | undefined => 1
  | int32 _ | int64 _ | double _ | decimal _ => 2
  | string _ | symbol _ => 3
  | document _ => 4
  | array _ => 5
  | binary _ _ => 6
  | objectId _ => 7
  | boolean _ => 8
  | dateTime _ => 9
  | timestamp _ _ => 10
  | regex _ _ => 11
  | dbPointer _ _ => 12
  | code _ | scopedCode _ _ => 13
  | maxKey => 255

/-- The order of sorting: numbers by value, strings, booleans and moments among their own, all
else by kind alone. -/
def compare (a b : Value) : Ordering :=
  match a.quantity?, b.quantity? with
  | some x, some y => x.totalCompare y
  | _, _ =>
    match a, b with
    | string s, string t => compareText s t
    | boolean p, boolean q => Ord.compare p q
    | dateTime s, dateTime t => Ord.compare s.toInt t.toInt
    | _, _ => Ord.compare a.rank b.rank

end Value

end RecordStore
