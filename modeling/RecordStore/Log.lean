namespace RecordStore

inductive LogLevel where
  | warn
  | info
  | debug
  | trace
deriving DecidableEq, Repr

def LogLevel.detail : LogLevel → Nat
  | warn => 1
  | info => 2
  | debug => 3
  | trace => 4

def LogLevel.label : LogLevel → String
  | warn => "WARN"
  | info => "INFO"
  | debug => "DEBUG"
  | trace => "TRACE"

/-- The trail of writes is kept apart from everything else. -/
inductive LogTarget where
  | app
  | audit
deriving DecidableEq, Repr

structure LogRecord where
  level : LogLevel
  target : LogTarget
  text : String
deriving DecidableEq, Repr

namespace LogRecord

def warn (text : String) : LogRecord := ⟨.warn, .app, text⟩

def debug (text : String) : LogRecord := ⟨.debug, .app, text⟩

def trace (text : String) : LogRecord := ⟨.trace, .app, text⟩

def audit (text : String) : LogRecord := ⟨.info, .audit, text⟩

def enabledAt (r : LogRecord) (level : LogLevel) : Bool := decide (r.level.detail ≤ level.detail)

end LogRecord

end RecordStore
