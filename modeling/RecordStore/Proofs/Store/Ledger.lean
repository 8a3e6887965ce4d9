import RecordStore.Proofs.Selection.Shaped
import RecordStore.Proofs.Store.KeyMap
import RecordStore.Proofs.Store.Operations
import RecordStore.Proofs.Value.Names

namespace RecordStore

abbrev Ledger := String → KeyMap

/-- The type and the key that a request is about, and its identifier as messages spell it. -/
structure Place where
  storable : Storable
  key : Key
  text : String

namespace Storable

def keyName (t : Storable) : String := t.identifiers.headD ""

def place (t : Storable) (d : Document) : Except StoreError Place :=
  match d.get? t.keyName with
  | none => .error (.missingIdentifier t.name)
  | some v =>
    match v.key? with
    | some k => .ok ⟨t, k, Document.text [(t.keyName, v)]⟩
    | none => .error (.missingIdentifier t.name)

/-- What is shown of a record as a selector shapes it. The attribute that identifies the record is
there as it is. Of the others there is none that the record does not have or the selector does not
name. What is there of each that it names is what the selection inside it takes, if the selector is
canonical, as every selector is that was read from a value. -/
structure Shows (t : Storable) (selector : Selector) (record shown : Document) : Prop where
  key : shown.get? t.keyName = record.get? t.keyName
  absent : ∀ name, record.get? name = none → shown.get? name = none
  unselected : ∀ name, name ≠ t.keyName → selector.get name = .nothing → shown.get? name = none
  selected : selector.Canonical → ∀ name v, name ≠ t.keyName → record.get? name = some v →
    (selector.get name).Shapes v (shown.get? name)

end Storable

def Storables.place (ts : Storables) (storable : String) (d : Document) :
    Except StoreError Place := do
  (← ts.get storable).place d

namespace Ledger

def empty : Ledger := fun _ => .empty

def set (l : Ledger) (collection : String) (m : KeyMap) : Ledger :=
  fun name => if name = collection then m else l name

/-- The record under the key, as the store shows it: `Storable.Shows` says what that is. -/
def load (l : Ledger) (p : Place) (o : LoadOptions) : Except StoreError (Option Document) :=
  match (l p.storable.collection).find? p.key with
  | some d => .ok (some (p.storable.shown o.selector d))
  | none =>
    if o.throwIfMissing then .error (.missingFromStore p.storable.collection p.text) else .ok none

/-- A refused write changes nothing; it is a failure if it is asked to be one. -/
def refuse (l : Ledger) (fails : Bool) (e : StoreError) : Except StoreError Answer × Ledger :=
  (if fails then .error e else .ok (.flag false), l)

def saveNew (l : Ledger) (p : Place) (d : Document) (fails : Bool) :
    Except StoreError Answer × Ledger :=
  let collection := p.storable.collection
  if ((l collection).find? p.key).isSome then
    l.refuse fails (.alreadyExistsInStore collection p.text)
  else (.ok (.flag true), l.set collection ((l collection).add p.key d.strip))

def saveExisting (l : Ledger) (p : Place) (d : Document) (fails : Bool) :
    Except StoreError Answer × Ledger :=
  let collection := p.storable.collection
  let patch := Patch.ofDocument (d.erase p.storable.keyName)
  if ((l collection).find? p.key).isSome then
    (.ok (.flag true), l.set collection ((l collection).change p.key patch.apply))
  else l.refuse fails (.missingFromStore collection p.text)

def delete (l : Ledger) (p : Place) (fails : Bool) : Except StoreError Answer × Ledger :=
  let collection := p.storable.collection
  if ((l collection).find? p.key).isSome then
    (.ok (.flag true), l.set collection ((l collection).remove p.key))
  else l.refuse fails (.missingFromStore collection p.text)

def hits (l : Ledger) (collection : String) (es : List Expression) : List Document :=
  (l collection).records.filter fun d => d.satisfies es

variable {σ : Type}

def find (l : Ledger) (s : Store σ) (storable : String) (query : Document) (o : FindOptions) :
    Except StoreError (List Document) := do
  let t ← s.storables.get storable
  let es ← s.rules.compile query
  let params ← s.findParams o
  let found := params.page (SortKey.sort params.sort (l.hits t.collection es))
  return found.map (t.shown o.selector)

def count (l : Ledger) (s : Store σ) (storable : String) (query : Document) :
    Except StoreError Nat := do
  let t ← s.storables.get storable
  let es ← s.rules.compile query
  return (l.hits t.collection es).length

end Ledger

namespace Store

variable {σ : Type}

/-- What a request comes to on a ledger, and the ledger after it. -/
def consult (s : Store σ) (l : Ledger) : Request → Except StoreError Answer × Ledger
  | .load storable identifier o =>
    match s.storables.place storable identifier with
    | .error e => (.error e, l)
    | .ok p => (.record <$> l.load p o, l)
  | .save storable d o =>
    match o.resolve, s.storables.place storable d with
    | .error e, _ | .ok _, .error e => (.error e, l)
    | .ok flags, .ok p =>
      if o.isNew then l.saveNew p d flags.throwIfExists
      else l.saveExisting p d flags.throwIfMissing
  | .delete storable identifier o =>
    match s.storables.place storable identifier with
    | .error e => (.error e, l)
    | .ok p => l.delete p o.throwIfMissing
  | .find storable query o => (.records <$> l.find s storable query o, l)
  | .count storable query => (.number <$> l.count s storable query, l)

def consultAll (s : Store σ) (l : Ledger) : List Request → List (Except StoreError Answer)
  | [] => []
  | r :: rs => (s.consult l r).1 :: s.consultAll (s.consult l r).2 rs

def ledgerAfter (s : Store σ) (l : Ledger) (rs : List Request) : Ledger :=
  rs.foldl (fun l r => (s.consult l r).2) l

def results (s : Store σ) (session : Session σ) : List Request → List (Except StoreError Answer)
  | [] => []
  | r :: rs => (s.run r session).result :: s.results (s.run r session).session rs

/-- A load by the key of any record there is answers with that record, as the selector shapes
it. -/
def LoadsShaped (s : Store Collections) (session : Session Collections) : Prop :=
  ∀ storable t, s.storables.find? storable = some t → Path.IsName t.keyName →
    ∀ record ∈ session.contents.records t.collection, ∀ d (o : LoadOptions),
      d.key? t.keyName = record.key? t.keyName →
        ∃ shown, (s.run (.load storable d o) session).result = .ok (.record (some shown)) ∧
          t.Shows o.selector record shown

end Store

/-- A store in memory of which every type has one identifying attribute, and a collection of its
own. -/
structure Store.Keyed (s : Store Collections) : Prop extends s.InMemory where
  identifiers : ∀ t ∈ s.storables.entries, ∃ name, t.identifiers = [name]
  collections : ∀ t ∈ s.storables.entries, ∀ u ∈ s.storables.entries,
    t.collection = u.collection → t = u

def Storables.Admits (ts : Storables) (storable : String) (d : Document) : Prop :=
  ∀ t v, ts.find? storable = some t → d.get? t.keyName = some v → Storable.isUsable v →
    ∃ k, v.key? = some k

/-- What is asked of requests: identifiers that are keys, and documents to save whose attributes
have names. -/
def Store.Admits (s : Store Collections) : Request → Prop
  | .load storable d _ | .delete storable d _ => s.storables.Admits storable d
  | .save storable d _ =>
    s.storables.Admits storable d ∧ ∀ name ∈ d.keys, Path.IsName name
  | .find _ _ _ | .count _ _ => True

end RecordStore
