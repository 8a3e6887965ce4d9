import RecordStore.Query.Operator

namespace RecordStore

structure Vocabulary where
  spellings : List (String × Operator)
  extensions : List String

namespace Vocabulary

def standard : Vocabulary :=
  ⟨Operator.shorthands ++ Operator.builtins.map (fun op => (op.token, op)), []⟩

instance : Inhabited Vocabulary := ⟨standard⟩

def resolve? (v : Vocabulary) (token : String) : Option Operator := v.spellings.lookup token

/-- Accepts an extension. A spelling that is known already keeps its meaning. -/
def withExtension (v : Vocabulary) (token : String) : Vocabulary :=
  match v.resolve? token with
  | some _ => v
  | none => ⟨(token, .extension token) :: v.spellings, token :: v.extensions⟩

/-- Accepts another spelling of what `target` means now; the alias may hide a known spelling. -/
def withAlias? (v : Vocabulary) (spelling target : String) : Option Vocabulary :=
  (v.resolve? target).map fun op => ⟨(spelling, op) :: v.spellings, v.extensions⟩

def sortedExtensions (v : Vocabulary) : List String :=
  v.extensions.mergeSort fun a b => decide (a ≤ b)

def normalize? (v : Vocabulary) (token : String) (value : Value) : Option Operator :=
  (v.resolve? token).map fun op => op.soften value

theorem resolve?_standard_token : ∀ op ∈ Operator.builtins, standard.resolve? op.token = some op := by
  decide

theorem resolve?_withExtension (v : Vocabulary) (token other : String) :
    (v.withExtension token).resolve? other =
      if other = token ∧ v.resolve? token = none then some (.extension token)
      else v.resolve? other := by
  unfold withExtension
  cases h : v.resolve? token with
  | some op => simp
  | none =>
    by_cases ho : other = token
    · simp [resolve?, ho]
    · simp only [ho, false_and, if_false]
      simp [resolve?, List.lookup_cons, beq_eq_false_iff_ne.mpr ho]

theorem resolve?_withAlias? {v w : Vocabulary} {spelling target : String}
    (h : v.withAlias? spelling target = some w) (other : String) :
    w.resolve? other = if other = spelling then v.resolve? target else v.resolve? other := by
  obtain ⟨op, hop, rfl⟩ := Option.map_eq_some_iff.mp h
  by_cases ho : other = spelling
  · simp [resolve?, ho, ← hop]
  · simp [resolve?, List.lookup_cons, beq_eq_false_iff_ne.mpr ho, ho]

end Vocabulary

end RecordStore
