import RecordStore.Backend.Basic

namespace RecordStore

inductive BackendCall where
  | create (collection : String) (identifier record : Document)
  | read (collection : String) (identifier : Document) (p : Projection)
  | update (collection : String) (identifier : Document) (p : Patch)
  | delete (collection : String) (identifier : Document)
  | find (collection : String) (es : List Expression) (p : Projection) (params : FindParams)
  | count (collection : String) (es : List Expression)

structure Recorded (σ : Type) where
  contents : σ
  calls : List BackendCall

namespace Backend

variable {σ α : Type}

def noting (call : BackendCall) (run : BackendM σ α) : BackendM (Recorded σ) α := fun s =>
  let calls := s.contents.calls ++ [call]
  match run ⟨s.contents.contents, s.log⟩ with
  | .ok a t => .ok a ⟨⟨t.contents, calls⟩, t.log⟩
  | .error e t => .error e ⟨⟨t.contents, calls⟩, t.log⟩

def recording (b : Backend σ) : Backend (Recorded σ) where
  create collection identifier record :=
    noting (.create collection identifier record) (b.create collection identifier record)
  read collection identifier p :=
    noting (.read collection identifier p) (b.read collection identifier p)
  update collection identifier p :=
    noting (.update collection identifier p) (b.update collection identifier p)
  delete collection identifier :=
    noting (.delete collection identifier) (b.delete collection identifier)
  find collection es p params :=
    noting (.find collection es p params) (b.find collection es p params)
  count collection es := noting (.count collection es) (b.count collection es)

end Backend

end RecordStore
