import RecordStore.Backend.Basic
import RecordStore.Query.Compiler
import RecordStore.Store.Codec
import RecordStore.Store.Options
import RecordStore.Store.Storable

namespace RecordStore

structure Store (σ : Type) where
  backend : Backend σ
  codec : Codec
  rules : QueryRules
  storables : Storables
  maxLimit : Nat

abbrev StoreM (σ : Type) := EStateM StoreError (Session σ)

def StoreConfig.standardRules : QueryRules :=
  let standard : StoreConfig := {}
  ⟨.standard, standard.maxQueryDepth, standard.maxInSet⟩

namespace Store

variable {σ α : Type}

def new (b : Backend σ) : Store σ :=
  let standard : StoreConfig := {}
  ⟨b, .plain, StoreConfig.standardRules, .empty, standard.maxLimit⟩

def withConfig (b : Backend σ) (c : StoreConfig) : Except StoreError (Store σ) :=
  match c.rules with
  | .ok rules => .ok { new b with rules, maxLimit := c.maxLimit }
  | .error fault => .error fault.toError

def register (s : Store σ) (t : Storable) : Except StoreError (Store σ) :=
  (s.storables.register t).map fun storables => { s with storables }

def call (operation collection : String) (run : BackendM σ α) : StoreM σ α := fun session =>
  match run session with
  | .ok a session => .ok a session
  | .error e session =>
    .error (.backend e) (session.write
      [.warn ("backend " ++ operation ++ " on '" ++ collection ++ "' failed: " ++ e)])

/-- What the engine is asked for: the selection, and the identifiers whatever it says. -/
def projectionFor (t : Storable) (selector : Selector) : Projection :=
  selector.toProjection.withPaths t.identifiers

def shape (s : Store σ) (t : Storable) (selector : Selector) (d : Document) :
    Except StoreError Document :=
  (s.codec.decode d).map fun d => d.pick selector t.identifiers

def shapeAll (s : Store σ) (t : Storable) (selector : Selector) :
    List Document → Except StoreError (List Document)
  | [] => .ok []
  | d :: ds => do
    let d ← s.shape t selector d
    let ds ← s.shapeAll t selector ds
    return d :: ds

def identify (s : Store σ) (t : Storable) (d : Document) : Except StoreError Document := do
  s.codec.encode (← t.identifierOf d)

def boolText (b : Bool) : String := if b then "true" else "false"

def createRecord (collection : String) (identifier : Document) (created : Bool) : LogRecord :=
  .audit ("create " ++ collection ++ " " ++ identifier.text ++ " -> " ++ boolText created)

def updateRecord (collection : String) (identifier : Document) (p : Patch) (updated : Bool) :
    LogRecord :=
  .audit ("update " ++ collection ++ " " ++ identifier.text ++ " set=" ++ toString p.set.length ++
    " unset=" ++ toString p.unset.length ++ " -> " ++ boolText updated)

def deleteRecord (collection : String) (identifier : Document) (deleted : Bool) : LogRecord :=
  .audit ("delete " ++ collection ++ " " ++ identifier.text ++ " -> " ++ boolText deleted)

def load (s : Store σ) (storable : String) (identifier : Document) (o : LoadOptions) :
    StoreM σ (Option Document) := do
  let t ← liftExcept (s.storables.get storable)
  let identifier ← liftExcept (s.identify t identifier)
  let found ← call "read" t.collection
    (s.backend.read t.collection identifier (projectionFor t o.selector))
  match found with
  | some d => some <$> liftExcept (s.shape t o.selector d)
  | none =>
    if o.throwIfMissing then throw (.missingFromStore t.collection identifier.text)
    else return none

def saveNew (s : Store σ) (t : Storable) (identifier record : Document) (throwIfExists : Bool) :
    StoreM σ Bool := do
  let created ← call "create" t.collection
    (s.backend.create t.collection identifier record.strip)
  if !created && throwIfExists then
    throw (.alreadyExistsInStore t.collection identifier.text)
  Session.emit [createRecord t.collection identifier created]
  return created

def saveExisting (s : Store σ) (t : Storable) (identifier record : Document)
    (throwIfMissing : Bool) : StoreM σ Bool := do
  let patch := Patch.ofDocument (identifier.keys.foldl Document.erase record)
  let updated ← call "update" t.collection (s.backend.update t.collection identifier patch)
  if !updated && throwIfMissing then throw (.missingFromStore t.collection identifier.text)
  Session.emit [updateRecord t.collection identifier patch updated]
  return updated

def save (s : Store σ) (storable : String) (d : Document) (o : SaveOptions) : StoreM σ Bool := do
  let flags ← liftExcept o.resolve
  let t ← liftExcept (s.storables.get storable)
  let record ← liftExcept (s.codec.encode d)
  let identifier ← liftExcept (t.identifierOf record)
  if o.isNew then s.saveNew t identifier record flags.throwIfExists
  else s.saveExisting t identifier record flags.throwIfMissing

def delete (s : Store σ) (storable : String) (identifier : Document) (o : DeleteOptions) :
    StoreM σ Bool := do
  let t ← liftExcept (s.storables.get storable)
  let identifier ← liftExcept (s.identify t identifier)
  let deleted ← call "delete" t.collection (s.backend.delete t.collection identifier)
  if !deleted && o.throwIfMissing then throw (.missingFromStore t.collection identifier.text)
  Session.emit [deleteRecord t.collection identifier deleted]
  return deleted

def conditions (s : Store σ) (query : Document) : StoreM σ (List Expression) := do
  let query ← liftExcept (s.codec.encode query)
  let compiled := s.rules.compile query
  Session.emit (QueryRules.compileRecords compiled)
  liftExcept compiled

def findParams (s : Store σ) (o : FindOptions) : Except StoreError FindParams := do
  let sort ← s.codec.encode (SortKey.toDocument o.sort)
  let sort ← (SortKey.ofDocument sort).mapError SortFault.toError
  return ⟨sort, o.skip.getD 0, some (min (o.limit.getD s.maxLimit) s.maxLimit)⟩

def find (s : Store σ) (storable : String) (query : Document) (o : FindOptions) :
    StoreM σ (List Document) := do
  let t ← liftExcept (s.storables.get storable)
  let es ← s.conditions query
  let params ← liftExcept (s.findParams o)
  let ds ← call "find" t.collection
    (s.backend.find t.collection es (projectionFor t o.selector) params)
  liftExcept (s.shapeAll t o.selector ds)

def count (s : Store σ) (storable : String) (query : Document) : StoreM σ Nat := do
  let t ← liftExcept (s.storables.get storable)
  let es ← s.conditions query
  call "count" t.collection (s.backend.count t.collection es)

end Store

end RecordStore
