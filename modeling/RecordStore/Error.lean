namespace RecordStore

inductive StoreError where
  | invalidQueryShape (detail : String)
  | unsupportedRootOperator (operator query : String)
  | unknownOperator (operator query : String)
  | unexpectedObjectValue (operator query : String)
  | expectedArrayValue (operator query : String)
  | queryTooDeep (limit : Nat)
  | invalidAttributeSelector (detail : String)
  | invalidSort (detail : String)
  | invalidOptions (detail : String)
  | missingIdentifier (storable : String)
  | unknownStorable (name : String)
  | duplicateStorable (name : String)
  | missingFromStore (collection identifier : String)
  | alreadyExistsInStore (collection identifier : String)
  | codec (detail : String)
  | config (detail : String)
  | unreadableFile
  | malformedJson
  | malformedToml
  | backend (message : String)
deriving DecidableEq, Repr, Inhabited

namespace StoreError

def code : StoreError → String
  | invalidQueryShape _ => "INVALID_QUERY_SHAPE"
  | unsupportedRootOperator _ _ => "UNSUPPORTED_ROOT_OPERATOR"
  | unknownOperator _ _ => "UNKNOWN_OPERATOR"
  | unexpectedObjectValue _ _ => "UNEXPECTED_OBJECT_VALUE"
  | expectedArrayValue _ _ => "EXPECTED_ARRAY_VALUE"
  | queryTooDeep _ => "QUERY_TOO_DEEP"
  | invalidAttributeSelector _ => "INVALID_ATTRIBUTE_SELECTOR"
  | invalidSort _ => "INVALID_SORT"
  | invalidOptions _ => "INVALID_OPTIONS"
  | missingIdentifier _ => "MISSING_IDENTIFIER"
  | unknownStorable _ => "UNKNOWN_STORABLE"
  | duplicateStorable _ => "DUPLICATE_STORABLE"
  | missingFromStore _ _ => "MISSING_FROM_STORE"
  | alreadyExistsInStore _ _ => "ALREADY_EXISTS_IN_STORE"
  | codec _ => "CODEC"
  | config _ => "CONFIG"
  | unreadableFile => "IO"
  | malformedJson => "JSON"
  | malformedToml => "TOML"
  | backend _ => "BACKEND"

/-- The message, for the failures whose wording is settled here. -/
def message? : StoreError → Option String
  | invalidQueryShape detail => some ("Invalid query shape: " ++ detail)
  | unsupportedRootOperator operator query =>
    some ("Unsupported root operator '" ++ operator ++ "' in " ++ query ++
      " (only $and, $or and $nor are allowed)")
  | unknownOperator operator query => some ("Unknown operator '" ++ operator ++ "' in " ++ query)
  | unexpectedObjectValue operator query =>
    some ("Operator '" ++ operator ++ "' expects a plain value, got an object in " ++ query)
  | expectedArrayValue operator query =>
    some ("Operator '" ++ operator ++ "' expects an array value in " ++ query)
  | queryTooDeep limit => some ("Query nesting exceeds the maximum depth of " ++ toString limit)
  | invalidAttributeSelector detail => some ("Invalid attribute selector: " ++ detail)
  | invalidSort detail => some ("Invalid sort: " ++ detail)
  | invalidOptions detail => some ("Invalid options: " ++ detail)
  | missingIdentifier storable => some ("Missing identifier for storable '" ++ storable ++ "'")
  | unknownStorable name => some ("Storable not registered: " ++ name)
  | duplicateStorable name => some ("Storable already registered: " ++ name)
  | missingFromStore collection identifier =>
    some ("Document not found in store (collection: '" ++ collection ++ "', identifier: " ++
      identifier ++ ")")
  | alreadyExistsInStore collection identifier =>
    some ("Document already exists in store (collection: '" ++ collection ++ "', identifier: " ++
      identifier ++ ")")
  | codec detail => some ("Codec error: " ++ detail)
  | config detail => some ("Config error: " ++ detail)
  | unreadableFile | malformedJson | malformedToml => none
  | backend message => some message

def message (e : StoreError) : String := e.message?.getD ""

def isCallerError : StoreError → Bool
  | invalidQueryShape _ | unsupportedRootOperator _ _ | unknownOperator _ _
  | unexpectedObjectValue _ _ | expectedArrayValue _ _ | queryTooDeep _
  | invalidAttributeSelector _ | invalidSort _ | invalidOptions _ | missingIdentifier _ => true
  | _ => false

end StoreError

end RecordStore
