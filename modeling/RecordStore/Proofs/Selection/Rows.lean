import RecordStore.Proofs.Value.Names
import RecordStore.Selection.Projection

namespace RecordStore

namespace Selector

/-- No level repeats an attribute or has one that is not a name, and nothing selects nothing. -/
inductive Normal : Selector → Prop
  | all : Normal all
  | fields {entries : List (String × Selector)} (hk : (entries.map Prod.fst).Nodup)
      (hn : ∀ e ∈ entries, Path.IsName e.1) (hs : ∀ e ∈ entries, Normal e.2) :
      Normal (fields entries)

/-- Only the whole selection may select nothing. -/
def Canonical (s : Selector) : Prop := s = nothing ∨ s.Normal

theorem normal_cons_iff {name : String} {s : Selector} {entries : List (String × Selector)} :
    Normal (fields ((name, s) :: entries)) ↔
      name ∉ entries.map Prod.fst ∧ Path.IsName name ∧ s.Normal ∧ Normal (fields entries) := by
  constructor
  · rintro (_ | ⟨hk, hn, hs⟩)
    obtain ⟨hk, hks⟩ := List.nodup_cons.mp hk
    obtain ⟨hn, hns⟩ := List.forall_mem_cons.mp hn
    obtain ⟨hs, hss⟩ := List.forall_mem_cons.mp hs
    exact ⟨hk, hn, hs, .fields hks hns hss⟩
  · rintro ⟨hk, hn, hs, _ | ⟨hks, hns, hss⟩⟩
    exact .fields (List.nodup_cons.mpr ⟨hk, hks⟩) (List.forall_mem_cons.mpr ⟨hn, hns⟩)
      (List.forall_mem_cons.mpr ⟨hs, hss⟩)

theorem normal_fields_nil : Normal (fields []) :=
  .fields List.nodup_nil (fun _ h => nomatch h) fun _ h => nomatch h

theorem get_fields_cons (k name : String) (s : Selector) (entries : List (String × Selector)) :
    (fields ((k, s) :: entries)).get name = if name = k then s else (fields entries).get name := by
  rw [get, Entries.lookup_cons]
  split <;> rfl

theorem get_of_not_mem {entries : List (String × Selector)} {name : String}
    (h : name ∉ entries.map Prod.fst) : (fields entries).get name = nothing := by
  rw [get, Entries.lookup_eq_none_iff.mpr h, Option.getD_none]

theorem Normal.get {s : Selector} (h : s.Normal) (name : String) : (s.get name).Canonical := by
  cases h with
  | all => exact .inr .all
  | @fields entries hk hn hs =>
    induction entries with
    | nil => exact .inl rfl
    | cons e entries ih =>
      obtain ⟨k, s⟩ := e
      rw [get_fields_cons]
      split
      · exact .inr (hs _ List.mem_cons_self)
      · exact ih (List.nodup_cons.mp hk).2 (fun e he => hn e (List.mem_cons_of_mem _ he))
          fun e he => hs e (List.mem_cons_of_mem _ he)

theorem Canonical.get {s : Selector} (h : s.Canonical) (name : String) :
    (s.get name).Canonical := by
  obtain rfl | h := h
  · exact .inl rfl
  · exact h.get name

mutual

/-- The rows that lead to what a selection takes whole. -/
def rows : Selector → List (List String)
  | all => [[]]
  | nothing => []
  | fields [] => [[]]
  | fields (e :: entries) => entryRows (e :: entries)

def entryRows : List (String × Selector) → List (List String)
  | [] => []
  | (name, s) :: entries => s.rows.map (name :: ·) ++ entryRows entries

end

theorem rows_fields {entries : List (String × Selector)} (h : entries ≠ []) :
    (fields entries).rows = entryRows entries := by
  cases entries with
  | nil => exact absurd rfl h
  | cons e entries => rw [rows]

theorem mem_entryRows {entries : List (String × Selector)} (h : Normal (fields entries))
    {name : String} {row : List String} :
    name :: row ∈ entryRows entries ↔ row ∈ ((fields entries).get name).rows := by
  induction entries with
  | nil => simp [entryRows, get, rows]
  | cons e entries ih =>
    obtain ⟨k, s⟩ := e
    obtain ⟨hk, -, -, hs⟩ := normal_cons_iff.mp h
    rw [entryRows, List.mem_append, ih hs, get_fields_cons]
    by_cases hn : name = k
    · subst hn
      simp [get_of_not_mem hk, rows]
    · simp [hn, Ne.symm hn]

theorem Normal.rows_ne_nil {s : Selector} (h : s.Normal) : s.rows ≠ [] := by
  induction h with
  | all => simp [rows]
  | @fields entries _ _ _ ih =>
    cases entries with
    | nil => simp [rows]
    | cons e entries =>
      have he := ih e List.mem_cons_self
      simp [rows, entryRows, he]

def namesAbove (parent : String) : List String :=
  if parent = "" then [] else (Path.ofString parent).names

theorem namesAbove_join {name : String} (h : Path.IsName name) (parent : String) :
    namesAbove (Path.join parent name) = namesAbove parent ++ [name] := by
  have hn : (Path.ofString name).names = [name] := by rw [Path.ofString_of_isName h]; rfl
  by_cases hp : parent = ""
  · subst hp
    simp [namesAbove, h.1, hn]
  · simp [namesAbove, hp, Path.join_ne_empty h.1, Path.names_join hp, hn]

mutual

theorem rows_leafPaths {parent : String} (hp : parent ≠ "") (s : Selector) (h : s.Canonical) :
    Path.rows (s.leafPaths parent) = s.rows.map (namesAbove parent ++ ·) := by
  cases s with
  | all => simp [leafPaths, rows, Path.rows, namesAbove, hp]
  | nothing => simp [leafPaths, rows, Path.rows]
  | fields entries =>
    cases entries with
    | nil => simp [leafPaths, rows, Path.rows, namesAbove, hp]
    | cons e entries =>
      rw [leafPaths, rows]
      exact rows_entryPaths parent (e :: entries) (h.resolve_left (by simp))

theorem rows_entryPaths (parent : String) (entries : List (String × Selector))
    (h : Normal (fields entries)) :
    Path.rows (entryPaths parent entries) = (entryRows entries).map (namesAbove parent ++ ·) := by
  cases entries with
  | nil => rfl
  | cons e entries =>
    obtain ⟨name, s⟩ := e
    obtain ⟨-, hn, hs, hes⟩ := normal_cons_iff.mp h
    rw [entryPaths, entryRows, Path.rows_append, List.map_append,
      rows_leafPaths (Path.join_ne_empty hn.1) s (.inr hs), rows_entryPaths parent entries hes,
      namesAbove_join hn, List.map_map]
    simp

end

end Selector

end RecordStore
