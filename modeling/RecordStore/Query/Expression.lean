import RecordStore.Query.Node
import RecordStore.Value.Path

namespace RecordStore

inductive Expression where
  | compare (path : String) (op : Operator) (v : Value)
  | quantify (path : String) (op : Operator) (body : List Expression)
  | combine (path : String) (op : Operator) (branches : List (List Expression))
deriving Inhabited

namespace Expression

def path : Expression → String
  | compare path _ _ | quantify path _ _ | combine path _ _ => path

def operator : Expression → Operator
  | compare _ op _ | quantify _ op _ | combine _ op _ => op

end Expression

mutual

def Expression.toValue : Expression → Value
  | .compare path op v => .array [.string path, .string op.token, v]
  | .quantify path op body =>
    .array [.string path, .string op.token, .array (expressionValues body)]
  | .combine path op branches =>
    .array [.string path, .string op.token, .array (branchValues branches)]

def expressionValues : List Expression → List Value
  | [] => []
  | e :: es => e.toValue :: expressionValues es

def branchValues : List (List Expression) → List Value
  | [] => []
  | es :: branches => .array (expressionValues es) :: branchValues branches

end

mutual

/-- The conditions of a query on the value at `path`. -/
def Node.lower (path : String) : Node → List Expression
  | .value v => [.compare path (.implicit v) v]
  | .fields entries => lowerFields path entries
  | .operators clauses => lowerClauses path clauses

def lowerFields (path : String) : List (String × Node) → List Expression
  | [] => []
  | (name, node) :: entries => node.lower (Path.join path name) ++ lowerFields path entries

def lowerClauses (path : String) : List Clause → List Expression
  | [] => []
  | c :: clauses => c.lower path :: lowerClauses path clauses

def Clause.lower (path : String) : Clause → Expression
  | .compare op v => .compare path op v
  | .quantify op node => .quantify path op (node.lower "")
  | .combine op nodes => .combine path op (lowerBranches nodes)

def lowerBranches : List Node → List (List Expression)
  | [] => []
  | node :: nodes => node.lower "" :: lowerBranches nodes

end

end RecordStore
