import RecordStore.Number.Numeral
import RecordStore.Text.Blank

namespace RecordStore

inductive LogFilter where
  | off
  | error
  | warn
  | info
  | debug
  | trace
deriving DecidableEq, Repr, Inhabited

namespace LogFilter

def label : LogFilter → String
  | off => "OFF"
  | error => "ERROR"
  | warn => "WARN"
  | info => "INFO"
  | debug => "DEBUG"
  | trace => "TRACE"

/-- Reads a word in any capitalisation; an unknown one, or none, means `info`. -/
def ofWord (word : Option String) : LogFilter :=
  match word.map fun s => String.ofList (s.toList.map Char.toLower) with
  | some "off" => off
  | some "error" => error
  | some "warn" => warn
  | some "debug" => debug
  | some "trace" => trace
  | _ => info

end LogFilter

structure LogRoute where
  target : String
  filter : LogFilter
  appenders : List String
  /-- Whether records also go to the root's appenders. -/
  additive : Bool
deriving DecidableEq, Repr

structure LogSettings where
  filter : LogFilter
  rootAppenders : List String
  appenders : List String
  routes : List LogRoute
  /-- How many rolled files are kept. -/
  retention : Nat
deriving DecidableEq, Repr

namespace LogSettings

def auditTarget : String := "docstore::audit"

def defaultRetention : Nat := 7

def build (level : Option String) (retention : Option Nat) : LogSettings :=
  let filter := LogFilter.ofWord level
  { filter
    rootAppenders := ["app"]
    appenders := ["app", "audit"]
    routes := [⟨auditTarget, filter, ["audit"], false⟩]
    retention := retention.getD defaultRetention }

def parseRetention (text : String) : Option Nat :=
  Numeral.unsignedBelow? (twoTo 32) (Blank.trim text.toList)

def ofVariables (level retention : Option String) : Except String LogSettings :=
  match retention with
  | none => .ok (build level none)
  | some text =>
    match parseRetention text with
    | some n => .ok (build level (some n))
    | none =>
      .error ("DOCSTORE_LOG_RETENTION must be a non-negative integer, got '" ++ text ++ "'")

end LogSettings

end RecordStore
