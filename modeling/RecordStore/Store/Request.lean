import RecordStore.Store.Basic

namespace RecordStore

inductive Request where
  | load (storable : String) (identifier : Document) (options : LoadOptions)
  | save (storable : String) (document : Document) (options : SaveOptions)
  | delete (storable : String) (identifier : Document) (options : DeleteOptions)
  | find (storable : String) (query : Document) (options : FindOptions)
  | count (storable : String) (query : Document)

inductive Answer where
  | record (d : Option Document)
  | flag (b : Bool)
  | records (ds : List Document)
  | number (n : Nat)

namespace Request

def operation : Request → String
  | load _ _ _ => "load"
  | save _ _ _ => "save"
  | delete _ _ _ => "delete"
  | find _ _ _ => "find"
  | count _ _ => "count"

def params : Request → Document
  | load storable identifier options =>
    [("storable", .string storable), ("identifier", .document identifier),
      ("options", .document options.toDocument)]
  | save storable document options =>
    [("storable", .string storable), ("document", .document document),
      ("options", .document options.toDocument)]
  | delete storable identifier options =>
    [("storable", .string storable), ("identifier", .document identifier),
      ("options", .document options.toDocument)]
  | find storable query options =>
    [("storable", .string storable), ("query", .document query),
      ("options", .document options.toDocument)]
  | count storable query => [("storable", .string storable), ("query", .document query)]

end Request

def Answer.toValue : Answer → Value
  | record none => .null
  | record (some d) => .document d
  | flag b => .boolean b
  | records ds => .array (ds.map .document)
  | number n => sizeValue n

structure TraceEntry where
  operation : String
  params : Document
  outcome : Except StoreError Value

namespace TraceEntry

def of (r : Request) (result : Except StoreError Answer) : TraceEntry :=
  ⟨r.operation, r.params, result.map Answer.toValue⟩

def isError (e : TraceEntry) : Bool :=
  match e.outcome with
  | .ok _ => false
  | .error _ => true

end TraceEntry

structure Outcome (σ : Type) where
  result : Except StoreError Answer
  session : Session σ

namespace Store

variable {σ : Type}

def answer (s : Store σ) : Request → StoreM σ Answer
  | .load storable identifier options => .record <$> s.load storable identifier options
  | .save storable document options => .flag <$> s.save storable document options
  | .delete storable identifier options => .flag <$> s.delete storable identifier options
  | .find storable query options => .records <$> s.find storable query options
  | .count storable query => .number <$> s.count storable query

def run (s : Store σ) (r : Request) (session : Session σ) : Outcome σ :=
  match s.answer r session with
  | .ok a session => ⟨.ok a, session⟩
  | .error e session => ⟨.error e, session⟩

def runAll (s : Store σ) (rs : List Request) (session : Session σ) : Session σ :=
  rs.foldl (fun session r => (s.run r session).session) session

def runTraced (s : Store σ) (r : Request) (session : Session σ) (trace : List TraceEntry) :
    Outcome σ × List TraceEntry :=
  let outcome := s.run r session
  (outcome, trace ++ [TraceEntry.of r outcome.result])

end Store

end RecordStore
