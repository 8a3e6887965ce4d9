import RecordStore.Proofs.Selection.Canonical

namespace RecordStore.Selector

/-- The selection inside the attribute that a row of names leads to. -/
def inside (s : Selector) (row : List String) : Selector := row.foldl get s

theorem inside_nil (s : Selector) : s.inside [] = s := rfl

theorem inside_cons (s : Selector) (name : String) (row : List String) :
    s.inside (name :: row) = (s.get name).inside row := rfl

@[simp] theorem inside_all (row : List String) : all.inside row = all := by
  induction row with
  | nil => rfl
  | cons name row ih => exact ih

@[simp] theorem inside_nothing (row : List String) : nothing.inside row = nothing := by
  induction row with
  | nil => rfl
  | cons name row ih => exact ih

section Union

variable {a b : Selector}

theorem merge_eq_all_iff : a.merge b = all ↔ a = all ∨ b = all := by
  cases a with
  | all | nothing => simp
  | fields own =>
    cases b with
    | all | nothing => simp
    | fields entries => simp [merge_fields]

theorem merge_eq_nothing_iff : a.merge b = nothing ↔ a = nothing ∧ b = nothing := by
  cases a with
  | all | nothing => simp
  | fields own =>
    cases b with
    | all | nothing => simp
    | fields entries => simp [merge_fields]

theorem NamesOnce.get (ha : a.NamesOnce) (name : String) : (a.get name).NamesOnce := by
  cases ha with
  | all => exact .all
  | nothing => exact .nothing
  | @fields entries hk hs =>
    rw [Selector.get]
    cases h : entries.lookup name with
    | none => exact .nothing
    | some s => exact hs _ (Entries.mem_of_lookup h)

theorem inside_merge (a : Selector) (hb : b.NamesOnce) (row : List String) :
    (a.merge b).inside row = (a.inside row).merge (b.inside row) := by
  induction row generalizing a b with
  | nil => rfl
  | cons name row ih => rw [inside_cons, get_merge a hb, ih _ (hb.get name), inside_cons, inside_cons]

end Union

section Known

variable {a b : Selector} {entries : List (String × Selector)}

theorem Normal.ne_nothing (ha : a.Normal) : a ≠ nothing := by
  cases ha <;> exact nofun

theorem get_of_lookup {name : String} {s : Selector} (h : entries.lookup name = some s) :
    (fields entries).get name = s := by
  rw [get, h, Option.getD_some]

theorem get_eq_nothing_iff (h : Normal (fields entries)) (name : String) :
    (fields entries).get name = nothing ↔ name ∉ entries.map Prod.fst := by
  refine ⟨fun hn hm => ?_, get_of_not_mem⟩
  obtain ⟨⟨name, s⟩, he, rfl⟩ := List.mem_map.mp hm
  cases h with
  | fields hk _ hs =>
    rw [get_of_lookup (Entries.lookup_of_mem hk he)] at hn
    exact (hs _ he).ne_nothing hn

theorem alike_of_inside (ha : a.Normal) (hb : b.Normal)
    (hall : ∀ row, a.inside row = all ↔ b.inside row = all)
    (hnothing : ∀ row, a.inside row = nothing ↔ b.inside row = nothing) : a.Alike b := by
  induction ha generalizing b with
  | all =>
    obtain rfl : b = all := (hall []).mp rfl
    exact .refl _
  | @fields own ho hn hs ih =>
    cases hb with
    | all => exact nomatch (hall []).mpr rfl
    | @fields entries hk hn' hs' =>
      apply Alike.fields
      · apply (List.perm_ext_iff_of_nodup ho hk).mpr
        intro name
        have hsame := hnothing [name]
        rw [inside_cons, inside_nil, inside_cons, inside_nil,
          get_eq_nothing_iff (.fields ho hn hs), get_eq_nothing_iff (.fields hk hn' hs')] at hsame
        exact not_iff_not.mp hsame
      · intro name s t hs₁ ht
        have hall' := fun row => hall (name :: row)
        have hnothing' := fun row => hnothing (name :: row)
        simp only [inside_cons, get_of_lookup hs₁, get_of_lookup ht] at hall' hnothing'
        exact ih _ (Entries.mem_of_lookup hs₁) (hs' _ (Entries.mem_of_lookup ht)) hall' hnothing'

end Known

end RecordStore.Selector
