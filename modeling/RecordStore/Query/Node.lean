import RecordStore.Query.Operator

namespace RecordStore

mutual

inductive Node where
  /-- A bare value, without an operator. -/
  | value (v : Value)
  /-- Attribute names, each with the query for what it holds. No names mean no restriction. -/
  | fields (entries : List (String × Node))
  /-- Conditions on the current value, in the order written. -/
  | operators (clauses : List Clause)

inductive Clause where
  | compare (op : Operator) (v : Value)
  | quantify (op : Operator) (node : Node)
  | combine (op : Operator) (nodes : List Node)

end

namespace Node

def all : Node := fields []

instance : Inhabited Node := ⟨all⟩

end Node

end RecordStore
