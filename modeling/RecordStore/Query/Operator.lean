import RecordStore.Value.Basic

namespace RecordStore

inductive Operator where
  | equal
  | notEqual
  | greaterThan
  | greaterThanOrEqual
  | lessThan
  | lessThanOrEqual
  | isIn
  | notIn
  | includes
  | startsWith
  | endsWith
  | matchesPattern
  | and
  | or
  | nor
  | anyItem
  | everyItem
  | not
  /-- A scalar operator that only a storage engine understands. -/
  | extension (token : String)
deriving DecidableEq, Repr, Inhabited

/-- What an operator applies to: a plain value, one sub-query, or a list of sub-queries. -/
inductive Arity where
  | scalar
  | nested
  | nestedList
deriving DecidableEq, Repr

namespace Operator

def builtins : List Operator :=
  [equal, notEqual, greaterThan, greaterThanOrEqual, lessThan, lessThanOrEqual, isIn, notIn,
    includes, startsWith, endsWith, matchesPattern, and, or, nor, anyItem, everyItem, not]

def token : Operator → String
  | equal => "$equal"
  | notEqual => "$notEqual"
  | greaterThan => "$greaterThan"
  | greaterThanOrEqual => "$greaterThanOrEqual"
  | lessThan => "$lessThan"
  | lessThanOrEqual => "$lessThanOrEqual"
  | isIn => "$in"
  | notIn => "$notIn"
  | includes => "$includes"
  | startsWith => "$startsWith"
  | endsWith => "$endsWith"
  | matchesPattern => "$matches"
  | and => "$and"
  | or => "$or"
  | nor => "$nor"
  | anyItem => "$some"
  | everyItem => "$every"
  | not => "$not"
  | extension token => token

def shorthands : List (String × Operator) :=
  [("$eq", equal), ("$ne", notEqual), ("$gt", greaterThan), ("$gte", greaterThanOrEqual),
    ("$lt", lessThan), ("$lte", lessThanOrEqual), ("$nin", notIn), ("$any", anyItem),
    ("$all", everyItem)]

def arity : Operator → Arity
  | and | or | nor => .nestedList
  | anyItem | everyItem | not => .nested
  | _ => .scalar

def isCombinator (op : Operator) : Bool := op.arity = .nestedList

def implicit (v : Value) : Operator := if v.isArray then isIn else equal

/-- The operator that is applied to a value: a negated plain value is an inequality, and
membership in what is not an array is equality. -/
def soften (op : Operator) (v : Value) : Operator :=
  match op, v with
  | not, .array _ => notIn
  | not, .document _ => not
  | not, _ => notEqual
  | isIn, .array _ => isIn
  | isIn, _ => equal
  | notIn, .array _ => notIn
  | notIn, _ => notEqual
  | op, _ => op

end Operator

def looksLikeOperator (key : String) : Bool := key.toList.head? == some '$'

end RecordStore
