import RecordStore.Log
import RecordStore.Patch
import RecordStore.Query.Expression
import RecordStore.Selection.Projection
import RecordStore.Sort

namespace RecordStore

/-- The contents of an engine and the log written so far, the oldest record first. -/
structure Session (σ : Type) where
  contents : σ
  log : List LogRecord

namespace Session

variable {σ ε : Type}

def start (contents : σ) : Session σ := ⟨contents, []⟩

def write (s : Session σ) (rs : List LogRecord) : Session σ := ⟨s.contents, s.log ++ rs⟩

def emit (rs : List LogRecord) : EStateM ε (Session σ) Unit := modify fun s => s.write rs

def getContents : EStateM ε (Session σ) σ := return (← get).contents

def setContents (c : σ) : EStateM ε (Session σ) Unit := modify fun s => ⟨c, s.log⟩

end Session

structure FindParams where
  sort : List SortKey
  skip : Nat
  limit : Option Nat
deriving DecidableEq, Repr

namespace FindParams

def page {α : Type} (p : FindParams) (xs : List α) : List α :=
  match p.limit with
  | none => xs.drop p.skip
  | some n => (xs.drop p.skip).take n

end FindParams

abbrev BackendM (σ : Type) := EStateM String (Session σ)

/-- A storage engine. Identifiers are documents of one attribute. The flags tell whether a write
took effect: creating is refused if a record with the identifier exists, updating and deleting if
none does. -/
structure Backend (σ : Type) where
  create (collection : String) (identifier record : Document) : BackendM σ Bool
  read (collection : String) (identifier : Document) (p : Projection) : BackendM σ (Option Document)
  update (collection : String) (identifier : Document) (p : Patch) : BackendM σ Bool
  delete (collection : String) (identifier : Document) : BackendM σ Bool
  find (collection : String) (es : List Expression) (p : Projection) (params : FindParams) :
    BackendM σ (List Document)
  count (collection : String) (es : List Expression) : BackendM σ Nat

end RecordStore
