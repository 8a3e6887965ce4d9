import RecordStore.Value.Basic

namespace RecordStore

def Value.scalarEqual : Value → Value → Bool
  | .null, .null | .undefined, .undefined | .minKey, .minKey | .maxKey, .maxKey => true
  | .boolean a, .boolean b => a == b
  | .int32 a, .int32 b => a == b
  | .int64 a, .int64 b => a == b
  | .double a, .double b => a.same b
  | .decimal a, .decimal b => a == b
  | .string a, .string b => a == b
  | .symbol a, .symbol b => a == b
  | .code a, .code b => a == b
  | .binary s a, .binary t b => s == t && a == b
  | .objectId a, .objectId b => a == b
  | .dateTime a, .dateTime b => a == b
  | .timestamp s i, .timestamp t j => s == t && i == j
  | .regex p o, .regex q r => p == q && o == r
  | .dbPointer s a, .dbPointer t b => s == t && a == b
  | _, _ => false

mutual

def Value.equal : Value → Value → Bool
  | .array a, .array b => itemsEqual a b
  | .document a, .document b => a.length == b.length && entriesWithin a b
  | .scopedCode s a, .scopedCode t b => s == t && (a.length == b.length && entriesWithin a b)
  | a, b => a.scalarEqual b

def itemsEqual : List Value → List Value → Bool
  | [], [] => true
  | a :: as, b :: bs => a.equal b && itemsEqual as bs
  | _, _ => false

def entriesWithin : List (String × Value) → List (String × Value) → Bool
  | [], _ => true
  | (name, a) :: as, bs =>
    (match Document.get? bs name with
      | some b => a.equal b
      | none => false) && entriesWithin as bs

end

def Document.equal (a b : Document) : Bool := a.length == b.length && entriesWithin a b

def Value.isHeldBy (v : Value) : Option Value → Bool
  | none => false
  | some w => w.equal v

end RecordStore
