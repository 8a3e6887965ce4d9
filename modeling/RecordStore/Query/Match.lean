import RecordStore.Log
import RecordStore.Query.Expression
import RecordStore.Value.Order

namespace RecordStore

/-- What a path is followed from: the record itself, or a value inside it that may be absent. -/
inductive Scope where
  | record (d : Document)
  | value (v : Option Value)

namespace Scope

def descend (s : Scope) (path : String) : Scope :=
  if path = "" then s
  else match s with
    | record d | value (some (.document d)) => .value (Document.getPath d (Path.ofString path))
    | value _ => .value none

def value? : Scope → Option Value
  | record _ => none
  | value v => v

end Scope

namespace Operator

/-- Equality with an attribute that may be absent, which equals only the null values. -/
def equalTo (field : Option Value) (v : Value) : Bool :=
  match field with
  | none => v.isNull || v.isUndefined
  | some f => f.same v

/-- Membership; an array is in a set if it is itself an element or one of its items is. -/
def memberOf (field : Option Value) (set : Value) : Bool :=
  match set with
  | .array set =>
    match field with
    | none => set.any Value.isNull
    | some (.array items) => set.any fun x =>
        (Value.array items).same x || items.any fun i => i.same x
    | some f => set.any fun x => f.same x
  | v => equalTo field v

def ordering? (field : Option Value) (v : Value) : Option Ordering :=
  field.bind fun f => f.compare? v

def occursIn (needle : List Char) : List Char → Bool
  | [] => needle.isEmpty
  | c :: cs => needle.isPrefixOf (c :: cs) || occursIn needle cs

/-- Whether a plain condition holds. Combinators and extensions mean nothing in front of a plain
value. -/
def compares (op : Operator) (field : Option Value) (v : Value) : Bool :=
  match op with
  | equal => equalTo field v
  | notEqual => !equalTo field v
  | greaterThan => ordering? field v == some .gt
  | greaterThanOrEqual => ordering? field v == some .gt || ordering? field v == some .eq
  | lessThan => ordering? field v == some .lt
  | lessThanOrEqual => ordering? field v == some .lt || ordering? field v == some .eq
  | isIn => memberOf field v
  | notIn => !memberOf field v
  | includes =>
    match field, v with
    | some (.string s), .string needle => occursIn needle.toList s.toList
    | some (.array items), v => items.any fun i => i.same v
    | _, _ => false
  | startsWith =>
    match field, v with
    | some (.string s), .string start => start.toList.isPrefixOf s.toList
    | _, _ => false
  | endsWith =>
    match field, v with
    | some (.string s), .string ending => ending.toList.isSuffixOf s.toList
    | _, _ => false
  | _ => false

end Operator

mutual

def Expression.holds (s : Scope) : Expression → Bool
  | .compare path op v => op.compares (s.descend path).value? v
  | .quantify path op body =>
    match op, (s.descend path).value? with
    | .not, _ => !allHold (s.descend path) body
    | .anyItem, some (.array items) => items.any fun i => allHold (.value (some i)) body
    | .everyItem, some (.array items) => items.all fun i => allHold (.value (some i)) body
    | _, _ => false
  | .combine path op branches =>
    match op with
    | .and => everyBranchHolds (s.descend path) branches
    | .or => someBranchHolds (s.descend path) branches
    | .nor => !someBranchHolds (s.descend path) branches
    | _ => false

def allHold (s : Scope) : List Expression → Bool
  | [] => true
  | e :: es => e.holds s && allHold s es

def everyBranchHolds (s : Scope) : List (List Expression) → Bool
  | [] => true
  | es :: branches => allHold s es && everyBranchHolds s branches

def someBranchHolds (s : Scope) : List (List Expression) → Bool
  | [] => false
  | es :: branches => allHold s es || someBranchHolds s branches

end

def costUntil {α : Type} (decides : α → Bool) (cost : α → Nat) : List α → Nat
  | [] => 0
  | a :: as => cost a + if decides a then 0 else costUntil decides cost as

mutual

def Expression.patternsTried (s : Scope) : Expression → Nat
  | .compare _ op _ => if op = .matchesPattern then 1 else 0
  | .quantify path op body =>
    match op, (s.descend path).value? with
    | .not, _ => patternsTriedIn (s.descend path) body
    | .anyItem, some (.array items) =>
      costUntil (fun i => allHold (.value (some i)) body)
        (fun i => patternsTriedIn (.value (some i)) body) items
    | .everyItem, some (.array items) =>
      costUntil (fun i => !allHold (.value (some i)) body)
        (fun i => patternsTriedIn (.value (some i)) body) items
    | _, _ => 0
  | .combine path op branches =>
    match op with
    | .and => patternsTriedInBranches false (s.descend path) branches
    | .or | .nor => patternsTriedInBranches true (s.descend path) branches
    | _ => 0

def patternsTriedIn (s : Scope) : List Expression → Nat
  | [] => 0
  | e :: es => e.patternsTried s + if e.holds s then patternsTriedIn s es else 0

def patternsTriedInBranches (settled : Bool) (s : Scope) : List (List Expression) → Nat
  | [] => 0
  | es :: branches =>
    patternsTriedIn s es +
      if allHold s es = settled then 0 else patternsTriedInBranches settled s branches

end

def Document.satisfies (d : Document) (es : List Expression) : Bool := allHold (.record d) es

def patternWarning : LogRecord :=
  .warn "$matches requires the 'regex' feature; treating as no match"

def Document.matchRecords (d : Document) (es : List Expression) : List LogRecord :=
  List.replicate (patternsTriedIn (.record d) es) patternWarning

end RecordStore
