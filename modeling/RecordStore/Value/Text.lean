import RecordStore.Number.Shortest
import RecordStore.Text.Base64
import RecordStore.Text.Calendar
import RecordStore.Text.Hex
import RecordStore.Value.Basic

namespace RecordStore

def ObjectId.text (id : ObjectId) : String := String.ofList (Hex.fixedDigits 24 id.toNat)

def commaSeparated (texts : List String) : String := String.intercalate ", " texts

def Value.scalarText : Value → String
  | .null => "null"
  | .undefined => "undefined"
  | .minKey => "MinKey"
  | .maxKey => "MaxKey"
  | .boolean b => if b then "true" else "false"
  | .int32 n => toString n.toInt
  | .int64 n => toString n.toInt
  | .double d => d.text
  | .decimal d => d.text
  | .string s => "\"" ++ s ++ "\""
  | .symbol s => "Symbol(\"" ++ s ++ "\")"
  | .code source => source
  | .scopedCode source _ => source
  | .binary subtype bytes =>
    "Binary(0x" ++ Hex.ofNat subtype.toNat ++ ", " ++ Base64.encode bytes ++ ")"
  | .objectId id => "ObjectId(\"" ++ id.text ++ "\")"
  | .dateTime millis => "DateTime(\"" ++ Calendar.text millis.toInt ++ "\")"
  | .timestamp time increment =>
    "Timestamp(" ++ toString time.toNat ++ ", " ++ toString increment.toNat ++ ")"
  | .regex pattern options => "/" ++ pattern ++ "/" ++ options
  | .dbPointer scope id => "DbPointer(" ++ scope ++ ", " ++ id.text ++ ")"
  | .document _ | .array _ => ""

def entriesText (texts : List String) : String :=
  if texts.isEmpty then "\x7b\x7d" else "\x7b " ++ commaSeparated texts ++ " \x7d"

mutual

def Value.text : Value → String
  | .array items => "[" ++ commaSeparated (itemTexts items) ++ "]"
  | .document entries => entriesText (entryTexts entries)
  | v => v.scalarText

def itemTexts : List Value → List String
  | [] => []
  | v :: items => v.text :: itemTexts items

def entryTexts : List (String × Value) → List String
  | [] => []
  | (name, v) :: entries => ("\"" ++ name ++ "\": " ++ v.text) :: entryTexts entries

end

def Document.text (d : Document) : String := entriesText (entryTexts d)

end RecordStore
