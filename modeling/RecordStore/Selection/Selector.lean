import RecordStore.Error
import RecordStore.Value.Path
import RecordStore.Value.Text

namespace RecordStore

inductive Selector where
  /-- Everything, at every depth. -/
  | all
  | nothing
  /-- The attributes listed, each with the selection inside it. -/
  | fields (entries : List (String × Selector))
deriving Repr, Inhabited

inductive SelectorFault where
  | notAName (v : Value)
  | notASelector (v : Value)
  | invalidName (name : String)

def SelectorFault.toError : SelectorFault → StoreError
  | notAName v => .invalidAttributeSelector ("expected an attribute name, got " ++ v.text)
  | notASelector v =>
    .invalidAttributeSelector ("expected a boolean, an array or a document, got " ++ v.text)
  | invalidName name => .invalidAttributeSelector ("invalid attribute name '" ++ name ++ "'")

namespace Selector

def isAll : Selector → Bool
  | all => true
  | _ => false

def isNothing : Selector → Bool
  | nothing => true
  | _ => false

def get (s : Selector) (name : String) : Selector :=
  match s with
  | all => all
  | nothing => nothing
  | fields entries => (entries.lookup name).getD nothing

def alter (f : Option Selector → Selector) (name : String) :
    List (String × Selector) → List (String × Selector)
  | [] => [(name, f none)]
  | (k, s) :: entries => if k = name then (k, f (some s)) :: entries else (k, s) :: alter f name entries

mutual

/-- The union of two selections, in the order of the first. -/
def merge (s : Selector) : Selector → Selector
  | all => all
  | nothing => s
  | fields entries =>
    match s with
    | all => all
    | nothing => fields entries
    | fields own => fields (mergeEntries own entries)

def mergeEntries (own : List (String × Selector)) :
    List (String × Selector) → List (String × Selector)
  | [] => own
  | (name, sub) :: entries =>
    let mergeInto : Option Selector → Selector
      | some s => merge s sub
      | none => sub
    mergeEntries (alter mergeInto name own) entries

end

def nest (leaf : Selector) (names : List String) : Selector :=
  names.foldr (fun name s => fields [(name, s)]) leaf

def ofPath (dotted : String) (leaf : Selector) : Except SelectorFault Selector :=
  let names := (Path.ofString dotted).names
  if names.contains "" then .error (.invalidName dotted) else .ok (nest leaf names)

def addNames (s : Selector) : List String → Except SelectorFault Selector
  | [] => .ok s
  | name :: names => do addNames (s.merge (← ofPath name all)) names

def ofNames (names : List String) : Except SelectorFault Selector := addNames (fields []) names

def addNameValues (s : Selector) : List Value → Except SelectorFault Selector
  | [] => .ok s
  | .string name :: items => do addNameValues (s.merge (← ofPath name all)) items
  | v :: _ => .error (.notAName v)

mutual

/-- Reads a selection: a boolean, a list of attribute names, or a document of selections. Entries
that select nothing are left out. -/
def ofValue : Value → Except SelectorFault Selector
  | .boolean b => .ok (if b then all else nothing)
  | .array items => addNameValues (fields []) items
  | .document entries => addEntries (fields []) entries
  | v => .error (.notASelector v)

def addEntries (s : Selector) : List (String × Value) → Except SelectorFault Selector
  | [] => .ok s
  | (name, v) :: entries => do
    let sub ← ofValue v
    if sub.isNothing then addEntries s entries
    else addEntries (s.merge (← ofPath name sub)) entries

end

def insert (s : Selector) (name : String) : Selector :=
  match s with
  | all => all
  | nothing => fields [(name, all)]
  | fields entries => (fields entries).merge (fields [(name, all)])

mutual

def toValue : Selector → Value
  | all => .boolean true
  | nothing => .boolean false
  | fields entries => .document (entriesToDocument [] entries)

def entriesToDocument (d : Document) : List (String × Selector) → Document
  | [] => d
  | (name, s) :: entries => entriesToDocument (d.insert name s.toValue) entries

end

mutual

/-- The selected part of a value. Arrays are taken item by item; a value that has no attributes is
kept whole. -/
def pickValue (s : Selector) : Value → Value
  | .document d => .document (if s.isAll then d else pickEntries s [] d)
  | .array items => .array (if s.isAll then items else pickItems s items)
  | v => v

def pickItems (s : Selector) : List Value → List Value
  | [] => []
  | v :: items => pickValue s v :: pickItems s items

def pickEntries (s : Selector) (keep : List String) : List (String × Value) → Document
  | [] => []
  | (name, v) :: entries =>
    let sub := s.get name
    if !sub.isNothing then (name, pickValue sub v) :: pickEntries s keep entries
    else if keep.contains name then (name, v) :: pickEntries s keep entries
    else pickEntries s keep entries

end

end Selector

/-- The selected part of a document. The attributes named in `keep` survive any selection. -/
def Document.pick (d : Document) (s : Selector) (keep : List String) : Document :=
  if s.isAll then d else s.pickEntries keep d

end RecordStore
