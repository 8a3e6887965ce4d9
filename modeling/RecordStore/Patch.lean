import RecordStore.Value.Path

namespace RecordStore

mutual

def Value.strip : Value → Value
  | .document entries => .document (stripEntries entries)
  | .array items => .array (stripItems items)
  | v => v

def stripItems : List Value → List Value
  | [] => []
  | v :: items => if v.isUndefined then stripItems items else v.strip :: stripItems items

def stripEntries : List (String × Value) → Document
  | [] => []
  | (name, v) :: entries =>
    if v.isUndefined then stripEntries entries else (name, v.strip) :: stripEntries entries

end

def Document.strip (d : Document) : Document := stripEntries d

structure Patch where
  set : List (String × Value)
  unset : List String
deriving Repr, Inhabited

namespace Patch

def empty : Patch := ⟨[], []⟩

def isEmpty (p : Patch) : Bool := p.set.isEmpty && p.unset.isEmpty

def append (p q : Patch) : Patch := ⟨p.set ++ q.set, p.unset ++ q.unset⟩

def toDocument (p : Patch) : Document :=
  let set := Document.ofList p.set
  let unset := Document.ofList (p.unset.map fun path => (path, .boolean true))
  (if set.isEmpty then [] else [("$set", .document set)]) ++
    (if unset.isEmpty then [] else [("$unset", .document unset)])

def applySet (state : Document × Bool) (e : String × Value) : Document × Bool :=
  let path := Path.ofString e.1
  (state.1.setPath path e.2, state.2 || state.1.setPathChanges path e.2)

def applyUnset (state : Document × Bool) (p : String) : Document × Bool :=
  let path := Path.ofString p
  (state.1.unsetPath path, state.2 || (state.1.getPath path).isSome)

/-- The patched document, assignments before removals, and whether anything changed. -/
def run (p : Patch) (d : Document) : Document × Bool :=
  p.unset.foldl applyUnset (p.set.foldl applySet (d, false))

def apply (p : Patch) (d : Document) : Document := (p.run d).1

def changes (p : Patch) (d : Document) : Bool := (p.run d).2

end Patch

def Document.marksFields (d : Document) : Bool := d.any fun e => e.2.isUndefined

mutual

/-- The patch for what a sparse document holds at `path`: a marked attribute is removed, a document
that marks some of its own attributes is patched attribute by attribute, and anything else replaces
what is stored. -/
def Value.patchAt (path : String) : Value → Patch
  | .undefined => ⟨[], [path]⟩
  | .document sub =>
    if Document.marksFields sub then patchEntries path sub
    else ⟨[(path, .document (stripEntries sub))], []⟩
  | v => ⟨[(path, v.strip)], []⟩

def patchEntries (parent : String) : List (String × Value) → Patch
  | [] => .empty
  | (name, v) :: entries => (v.patchAt (Path.join parent name)).append (patchEntries parent entries)

end

def Patch.ofDocument (d : Document) : Patch := patchEntries "" d

end RecordStore
