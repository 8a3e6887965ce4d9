import RecordStore.Json.Syntax
import RecordStore.Text.Base64
import RecordStore.Text.Calendar
import RecordStore.Value.Basic

namespace RecordStore

namespace Json

def string? : Json → Option String
  | string s => some s
  | _ => none

def natural? (bound : Nat) : Json → Option Nat
  | number (.natural n) => if n < bound then some n else none
  | _ => none

def int64? : Json → Option Int64
  | number (.natural n) => if n < twoTo 63 then some (Int64.ofInt n) else none
  | number (.negative n) => some (Int64.ofInt n)
  | _ => none

/-- The members of a record with the given names, each present once and no others; a list of
members in their order will do as well. -/
def members? (names : List String) : Json → Option (List Json)
  | object entries =>
    if entries.length = names.length then names.mapM fun name => entries.lookup name else none
  | array items => if items.length = names.length then some items else none
  | _ => none

end Json

namespace Value

def ofNat? (n : Nat) : Option Value :=
  if n < twoTo 31 then some (.int32 (Int32.ofNat n))
  else if n < twoTo 63 then some (.int64 (Int64.ofNat n))
  else none

def ofJsonNumber : JsonNumber → Option Value
  | .natural n => ofNat? n
  | .negative n => some (.int64 (Int64.ofInt n))
  | .real d => some (.double d)

def objectId? (s : String) : Option ObjectId :=
  (Hex.ofFixedDigits? 24 s.toList).map (BitVec.ofNat 96)

def ofBinaryBody (body : Json) : Option Value := do
  let [base64, subtype] ← body.members? ["base64", "subType"] | none
  let bytes ← Base64.decode (← base64.string?).toList
  let [subtype] ← Hex.decode (← subtype.string?).toList | none
  return .binary subtype bytes

/-- A UUID in one of its four spellings: bare, with hyphens, in braces, as a URN. -/
def uuidDigits? (cs : List Char) : Option (List Char) :=
  let braced := cs.length = 38 ∧ cs.head? = some '\x7b' ∧ cs.getLast? = some '\x7d'
  let urn := "urn:uuid:".toList
  let cs :=
    if braced then (cs.drop 1).dropLast
    else if cs.length = 45 ∧ urn.isPrefixOf cs then cs.drop urn.length
    else cs
  if cs.length = 32 ∧ !cs.contains '-' then some cs
  else
    let parts := [cs.take 8, (cs.drop 9).take 4, (cs.drop 14).take 4, (cs.drop 19).take 4, cs.drop 24]
    if cs.length = 36 ∧ cs = List.intercalate ['-'] parts then some parts.flatten else none

def ofUuidBody (body : Json) : Option Value := do
  let digits ← uuidDigits? (← body.string?).toList
  return .binary 4 (← Hex.decode digits)

def ofTimestampBody (body : Json) : Option Value := do
  let [time, increment] ← body.members? ["t", "i"] | none
  return .timestamp (UInt32.ofNat (← time.natural? (twoTo 32)))
    (UInt32.ofNat (← increment.natural? (twoTo 32)))

/-- The options of a pattern are kept in the order of their characters. -/
def ofRegexBody (body : Json) : Option Value := do
  let [pattern, options] ← body.members? ["pattern", "options"] | none
  let pattern ← pattern.string?
  let options ← options.string?
  guard (!pattern.contains '\x00' && !options.contains '\x00')
  return .regex pattern (String.ofList (options.toList.mergeSort fun a b => decide (a ≤ b)))

def ofDbPointerBody (body : Json) : Option Value := do
  let [scope, id] ← body.members? ["$ref", "$id"] | none
  let [id] ← id.members? ["$oid"] | none
  return .dbPointer (← scope.string?) (← objectId? (← id.string?))

def ofDateBody (body : Json) : Option Value :=
  match body with
  | .string s => (Calendar.millis? s.toList).map fun millis => .dateTime (Int64.ofInt millis)
  | .number _ => body.int64?.map .dateTime
  | body => do
    let [millis] ← body.members? ["$numberLong"] | none
    let n ← Numeral.integerOfWidth? 64 (← millis.string?).toList
    return .dateTime (Int64.ofInt n)

def ofReserved? (name : String) (body : Json) : Option (Option Value) :=
  match name with
  | "$oid" => some (body.string?.bind fun s => (objectId? s).map .objectId)
  | "$symbol" => some (body.string?.map .symbol)
  | "$numberInt" => some (body.string?.bind fun s =>
      (Numeral.integerOfWidth? 32 s.toList).map fun n => .int32 (Int32.ofInt n))
  | "$numberLong" => some (body.string?.bind fun s =>
      (Numeral.integerOfWidth? 64 s.toList).map fun n => .int64 (Int64.ofInt n))
  | "$numberDouble" => some (body.string?.bind fun s =>
      (Numeral.double? s.toList).map .double)
  | "$numberDecimal" => some (body.string?.bind fun s => (Decimal.ofText? s).map .decimal)
  | "$binary" => some (ofBinaryBody body)
  | "$uuid" => some (ofUuidBody body)
  | "$timestamp" => some (ofTimestampBody body)
  | "$regularExpression" => some (ofRegexBody body)
  | "$dbPointer" => some (ofDbPointerBody body)
  | "$date" => some (ofDateBody body)
  | "$minKey" => some ((body.natural? 256).bind fun n => if n = 1 then some .minKey else none)
  | "$maxKey" => some ((body.natural? 256).bind fun n => if n = 1 then some .maxKey else none)
  | "$undefined" => some (match body with
    | .boolean true => some .undefined
    | _ => none)
  | _ => none

def scopedCode? (source : String) : Option Value → Option Value
  | some (.document scope) => some (.scopedCode source scope)
  | _ => none

mutual

def ofJson : Json → Option Value
  | .null => some .null
  | .boolean b => some (.boolean b)
  | .number n => ofJsonNumber n
  | .string s => some (.string s)
  | .array items => (ofJsonItems items).map .array
  | .object entries => ofJsonEntries [] entries

def ofJsonItems : List Json → Option (List Value)
  | [] => some []
  | v :: items => do
    let v ← ofJson v
    return v :: (← ofJsonItems items)

def ofJsonEntries (d : Document) : List (String × Json) → Option Value
  | [] => some (.document d)
  | (name, .string source) :: rest =>
    if name = "$code" then
      match rest with
      | [] => some (.code source)
      | [(other, .object entries)] =>
        if other = "$scope" then scopedCode? source (ofJsonEntries [] entries) else none
      | _ => none
    else if name = "$scope" then none
    else
      match ofReserved? name (.string source) with
      | some v => if rest.isEmpty then v else none
      | none => ofJsonEntries (d.insert name (.string source)) rest
  | (name, .object entries) :: rest =>
    if name = "$scope" then
      match rest with
      | [(other, .string source)] =>
        if other = "$code" then scopedCode? source (ofJsonEntries [] entries) else none
      | _ => none
    else if name = "$code" then none
    else
      match ofReserved? name (.object entries) with
      | some v => if rest.isEmpty then v else none
      | none => do ofJsonEntries (d.insert name (← ofJsonEntries [] entries)) rest
  | (name, v) :: rest =>
    if name = "$code" || name = "$scope" then none
    else
      match ofReserved? name v with
      | some v => if rest.isEmpty then v else none
      | none => do ofJsonEntries (d.insert name (← ofJson v)) rest

end

end Value

def Document.ofJsonText? (text : String) : Option Document :=
  match (Json.ofText? text).bind Value.ofJson with
  | some (.document d) => some d
  | _ => none

end RecordStore
