import RecordStore.Log
import RecordStore.Query.Expression
import RecordStore.Query.Parse

namespace RecordStore

abbrev QueryRules.Compiled := Except StoreError (List Expression)

namespace QueryRules

def parseQuery (r : QueryRules) (query : Document) : Except StoreError Node :=
  (r.parse query).mapError QueryFault.toError

def compile (r : QueryRules) (query : Document) : Compiled :=
  (r.parseQuery query).map (Node.lower "")

def compileRecords : Compiled → List LogRecord
  | .error _ => []
  | .ok es =>
    .debug ("compiled query into " ++ toString es.length ++ " expression(s)") ::
      es.map fun e => .trace ("  " ++ e.toValue.text)

end QueryRules

end RecordStore
