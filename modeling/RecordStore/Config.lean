import RecordStore.Error
import RecordStore.Query.Parse
import RecordStore.Text.Blank
import RecordStore.Toml.Line

namespace RecordStore

structure StoreConfig where
  maxQueryDepth : Nat := 32
  maxInSet : Nat := 1000
  maxLimit : Nat := 10000
  /-- Further spellings, each with the spelling it stands for, sorted by the former. -/
  aliases : List (String × String) := []
  extensions : List String := []
deriving DecidableEq, Repr, Inhabited

inductive ConfigFault where
  | zeroLimit
  | missingMarker (token : String)
  | unknownAliasTarget (spelling target : String)
  | notAPositiveInteger (variableName text : String)

def ConfigFault.toError : ConfigFault → StoreError
  | zeroLimit => .config "limits must be greater than zero"
  | missingMarker token => .config ("operator '" ++ token ++ "' must start with '$'")
  | unknownAliasTarget spelling target =>
    .config ("alias '" ++ spelling ++ "' targets unknown operator '" ++ target ++ "'")
  | notAPositiveInteger variableName text =>
    .config (variableName ++ " must be a positive integer, got '" ++ text ++ "'")

def wordSize : Nat := twoTo 64

namespace StoreConfig

/-- Puts an alias in its place by the order of characters; a repeated one takes the last target. -/
def insertAlias (spelling target : String) : List (String × String) → List (String × String)
  | [] => [(spelling, target)]
  | (k, t) :: rest =>
    if spelling < k then (spelling, target) :: (k, t) :: rest
    else if spelling = k then (spelling, target) :: rest
    else (k, t) :: insertAlias spelling target rest

def sortAliases (entries : List (String × String)) : List (String × String) :=
  entries.foldl (fun sorted e => insertAlias e.1 e.2 sorted) []

def hasMarker (token : String) : Bool := looksLikeOperator token && decide (2 ≤ token.utf8ByteSize)

/-- Limits are positive; of several faulty tokens the first alias is reported, then the first
extension. -/
def validate (c : StoreConfig) : Except ConfigFault Unit :=
  if c.maxQueryDepth = 0 ∨ c.maxInSet = 0 ∨ c.maxLimit = 0 then .error .zeroLimit
  else
    match (c.aliases.map Prod.fst ++ c.extensions).find? fun token => !hasMarker token with
    | some token => .error (.missingMarker token)
    | none => .ok ()

def addAliases (v : Vocabulary) : List (String × String) → Except ConfigFault Vocabulary
  | [] => .ok v
  | (spelling, target) :: rest =>
    match v.withAlias? spelling target with
    | some v => addAliases v rest
    | none => .error (.unknownAliasTarget spelling target)

def vocabulary (c : StoreConfig) : Except ConfigFault Vocabulary :=
  addAliases (c.extensions.foldl Vocabulary.withExtension .standard) c.aliases

def rules (c : StoreConfig) : Except ConfigFault QueryRules :=
  c.vocabulary.map fun v => ⟨v, c.maxQueryDepth, c.maxInSet⟩

def parseSize (text : String) : Option Nat :=
  Numeral.unsignedBelow? wordSize (Blank.trim text.toList)

def applyVariable (variableName : String) (value : Option String)
    (assign : StoreConfig → Nat → StoreConfig) (c : StoreConfig) : Except ConfigFault StoreConfig :=
  match value with
  | none => .ok c
  | some text =>
    match parseSize text with
    | some n => .ok (assign c n)
    | none => .error (.notAPositiveInteger variableName text)

def overrides : List (String × (StoreConfig → Nat → StoreConfig)) :=
  [("DOCSTORE_MAX_QUERY_DEPTH", fun c n => { c with maxQueryDepth := n }),
    ("DOCSTORE_MAX_IN_SET", fun c n => { c with maxInSet := n }),
    ("DOCSTORE_MAX_LIMIT", fun c n => { c with maxLimit := n })]

def overlayWith (lookup : String → Option String) :
    List (String × (StoreConfig → Nat → StoreConfig)) → StoreConfig →
    StoreConfig × Option ConfigFault
  | [], c => (c, none)
  | (name, assign) :: rest, c =>
    match applyVariable name (lookup name) assign c with
    | .ok c => overlayWith lookup rest c
    | .error fault => (c, some fault)

/-- The configuration with the variables laid over it, and the fault that was met, if any. What was
overridden before the fault stays so. -/
def overlay (lookup : String → Option String) (c : StoreConfig) : StoreConfig × Option ConfigFault :=
  match overlayWith lookup overrides c with
  | (c, some fault) => (c, some fault)
  | (c, none) =>
    match c.validate with
    | .ok () => (c, none)
    | .error fault => (c, some fault)

def overlaid (lookup : String → Option String) (c : StoreConfig) : Except StoreError StoreConfig :=
  match c.overlay lookup with
  | (c, none) => .ok c
  | (_, some fault) => .error fault.toError

def sizeOfToml? : Toml → Option Nat
  | .scalar (.integer n) => if 0 ≤ n ∧ n < wordSize then some n.toNat else none
  | _ => none

def textOfToml? : Toml → Option String
  | .string s => some s
  | _ => none

/-- A table of strings. A date or time is read as a table as well, of its text under a reserved
name. -/
def aliasesOfToml? : Toml → Option (List (String × String))
  | .table _ entries => entries.mapM fun e => (textOfToml? e.2).map fun s => (e.1, s)
  | .scalar (.moment text) => some [("$__toml_private_datetime", text)]
  | _ => none

def extensionsOfToml? : Toml → Option (List String)
  | .array items => items.mapM textOfToml?
  | _ => none

def setting {α : Type} (t : TomlTable) (name : String) (read : Toml → Option α) (default : α) :
    Option α :=
  match List.lookup name t with
  | none => some default
  | some v => read v

def ofToml? (t : TomlTable) : Option StoreConfig := do
  let standard : StoreConfig := {}
  return {
    maxQueryDepth := ← setting t "max_query_depth" sizeOfToml? standard.maxQueryDepth
    maxInSet := ← setting t "max_in_set" sizeOfToml? standard.maxInSet
    maxLimit := ← setting t "max_limit" sizeOfToml? standard.maxLimit
    aliases := sortAliases (← setting t "operator_aliases" aliasesOfToml? [])
    extensions := ← setting t "operator_extensions" extensionsOfToml? [] }

def ofText (text : String) : Except StoreError StoreConfig :=
  match (TomlTable.ofText? text).bind ofToml? with
  | none => .error .malformedToml
  | some c => (c.validate.mapError ConfigFault.toError).map fun () => c

def ofFile : Option String → Except StoreError StoreConfig
  | none => .error .unreadableFile
  | some text => ofText text

def ofVariables (lookup : String → Option String) : Except StoreError StoreConfig :=
  overlaid lookup {}

def load (file : Option String) (lookup : String → Option String) :
    Except StoreError StoreConfig := do
  overlaid lookup (← ofFile file)

end StoreConfig

end RecordStore
