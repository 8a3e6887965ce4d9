import RecordStore.Error
import RecordStore.Query.Node
import RecordStore.Query.Vocabulary
import RecordStore.Value.Text

namespace RecordStore

inductive QueryFault where
  | mixedLevel (level : Document)
  | emptyName (level : Document)
  | implicitSetTooLarge (limit : Nat)
  | setTooLarge (op : Operator) (limit : Nat) (level : Document)
  | unsupportedRoot (token : String) (query : Document)
  | unknownOperator (token : String) (level : Document)
  | unexpectedObject (token : String) (level : Document)
  | expectedArray (token : String) (level : Document)
  | tooDeep (limit : Nat)

def QueryFault.toError : QueryFault → StoreError
  | mixedLevel level =>
    .invalidQueryShape ("cannot mix attribute names and operators in " ++ level.text)
  | emptyName level => .invalidQueryShape ("empty attribute name in " ++ level.text)
  | implicitSetTooLarge limit =>
    .invalidQueryShape ("implicit '$in' accepts at most " ++ toString limit ++ " values")
  | setTooLarge op limit level =>
    .invalidQueryShape ("'" ++ op.token ++ "' accepts at most " ++ toString limit ++
      " values in " ++ level.text)
  | unsupportedRoot token query => .unsupportedRootOperator token query.text
  | unknownOperator token level => .unknownOperator token level.text
  | unexpectedObject token level => .unexpectedObjectValue token level.text
  | expectedArray token level => .expectedArrayValue token level.text
  | tooDeep limit => .queryTooDeep limit

/-- What a parser goes by: the spellings it knows and the limits it enforces. -/
structure QueryRules where
  vocabulary : Vocabulary
  maxDepth : Nat
  maxInSet : Nat

inductive LevelKind where
  | empty
  | attributes
  | operators
  | mixed
deriving DecidableEq, Repr

def LevelKind.of (level : Document) : LevelKind :=
  if level.isEmpty then .empty
  else if level.all (fun e => looksLikeOperator e.1) then .operators
  else if level.any (fun e => looksLikeOperator e.1) then .mixed
  else .attributes

namespace QueryRules

def checkScalar (r : QueryRules) (level : Document) (token : String) (op : Operator) (v : Value) :
    Except QueryFault Clause :=
  match v with
  | .document _ => .error (.unexpectedObject token level)
  | .array items =>
    if (op = .isIn ∨ op = .notIn) ∧ r.maxInSet < items.length then
      .error (.setTooLarge op r.maxInSet level)
    else .ok (.compare op v)
  | v => .ok (.compare op v)

mutual

/-- The query for a value. A document is a level of its own, everything else a bare value. -/
def parseValue (r : QueryRules) (depth : Nat) : Value → Except QueryFault Node
  | .document level =>
    if r.maxDepth < depth then .error (.tooDeep r.maxDepth)
    else
      match LevelKind.of level with
      | .empty => .ok (.fields [])
      | .attributes => (parseFields r depth level level).map .fields
      | .operators => (parseClauses r depth level level).map .operators
      | .mixed => .error (.mixedLevel level)
  | .array items =>
    if r.maxInSet < items.length then .error (.implicitSetTooLarge r.maxInSet)
    else .ok (.value (.array items))
  | v => .ok (.value v)

def parseFields (r : QueryRules) (depth : Nat) (level : Document) :
    List (String × Value) → Except QueryFault (List (String × Node))
  | [] => .ok []
  | (name, v) :: entries => do
    if name = "" then throw (.emptyName level)
    let node ← parseValue r (depth + 1) v
    let rest ← parseFields r depth level entries
    return (name, node) :: rest

def parseClauses (r : QueryRules) (depth : Nat) (level : Document) :
    List (String × Value) → Except QueryFault (List Clause)
  | [] => .ok []
  | (token, v) :: entries => do
    let some op := r.vocabulary.normalize? token v | throw (.unknownOperator token level)
    let clause ← match op.arity with
      | .nested => (parseValue r (depth + 1) v).map (.quantify op)
      | .nestedList =>
        match v with
        | .array items => (parseItems r (depth + 1) items).map (.combine op)
        | _ => .error (.expectedArray token level)
      | .scalar => checkScalar r level token op v
    let rest ← parseClauses r depth level entries
    return clause :: rest

def parseItems (r : QueryRules) (depth : Nat) : List Value → Except QueryFault (List Node)
  | [] => .ok []
  | v :: items => do
    let node ← parseValue r depth v
    let rest ← parseItems r depth items
    return node :: rest

end

def unsupportedRootKey? (r : QueryRules) (query : Document) : Option String :=
  query.keys.find? fun key =>
    match r.vocabulary.resolve? key with
    | some op => !op.isCombinator
    | none => true

/-- The query of a whole document. Its own level counts as depth one and is never too deep; of
operators it may hold combinators only. -/
def parse (r : QueryRules) (query : Document) : Except QueryFault Node :=
  match LevelKind.of query with
  | .empty => .ok .all
  | .mixed => .error (.mixedLevel query)
  | .attributes => (r.parseFields 1 query query).map .fields
  | .operators =>
    match r.unsupportedRootKey? query with
    | some key => .error (.unsupportedRoot key query)
    | none => (r.parseClauses 1 query query).map .operators

end QueryRules

end RecordStore
