import RecordStore.Error
import RecordStore.Value.Text

namespace RecordStore

structure Codec where
  serialize : Value → Value
  deserialize : Value → Value

namespace Codec

def plain : Codec := ⟨id, id⟩

def encode (c : Codec) (d : Document) : Except StoreError Document :=
  match c.serialize (.document d) with
  | .document e => .ok e
  | v => .error (.codec ("serializer turned a document into " ++ v.text))

def decode (c : Codec) (d : Document) : Except StoreError Document :=
  match c.deserialize (.document d) with
  | .document e => .ok e
  | v => .error (.codec ("deserializer turned a document into " ++ v.text))

def renameKeys (f : String → String) (d : Document) : Document :=
  Document.ofList (d.map fun e => (f e.1, e.2))

def onDocument (f : Document → Value) : Value → Value
  | .document d => f d
  | v => v

def swapName (old new : String) (name : String) : String := if name = old then new else name

/-- Keeps the attribute `outer` under the name `inner`. -/
def rename (outer inner : String) : Codec where
  serialize := onDocument fun d => .document (renameKeys (swapName outer inner) d)
  deserialize := onDocument fun d => .document (renameKeys (swapName inner outer) d)

end Codec

end RecordStore
