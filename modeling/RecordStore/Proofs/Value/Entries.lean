import RecordStore.Value.Basic

namespace RecordStore.Entries

variable {κ β : Type} {entries a b : List (κ × β)} {name : κ} {x : β}

theorem not_mem_of_nodup_append (h : ((a ++ (name, x) :: b).map Prod.fst).Nodup) :
    name ∉ a.map Prod.fst := by
  rw [List.map_append, List.nodup_append] at h
  exact fun hm => h.2.2 name hm name List.mem_cons_self rfl

variable [BEq κ] [LawfulBEq κ]

theorem mem_of_lookup (h : entries.lookup name = some x) : (name, x) ∈ entries := by
  obtain ⟨front, back, rfl, -⟩ := List.lookup_eq_some_iff.mp h
  exact List.mem_append_right front List.mem_cons_self

variable [DecidableEq κ]

theorem lookup_cons (k name : κ) (x : β) (entries : List (κ × β)) :
    List.lookup name ((k, x) :: entries) = if name = k then some x else entries.lookup name := by
  rw [List.lookup_cons]
  by_cases h : name = k
  · simp [h]
  · simp [h, beq_eq_false_iff_ne.mpr h]

theorem lookup_eq_none_iff : entries.lookup name = none ↔ name ∉ entries.map Prod.fst := by
  induction entries with
  | nil => simp
  | cons e entries ih =>
    obtain ⟨k, x⟩ := e
    by_cases h : name = k <;> simp [lookup_cons, h, ih]

theorem lookup_of_mem (hk : (entries.map Prod.fst).Nodup) (h : (name, x) ∈ entries) :
    entries.lookup name = some x := by
  induction entries with
  | nil => exact nomatch h
  | cons e entries ih =>
    obtain ⟨hnew, hrest⟩ := List.nodup_cons.mp hk
    rw [lookup_cons]
    obtain rfl | h := List.mem_cons.mp h
    · exact if_pos rfl
    · have hne : name ≠ e.1 := fun he => hnew (he ▸ List.mem_map_of_mem h)
      rw [if_neg hne, ih hrest h]

theorem eq_of_lookup (hkeys : a.map Prod.fst = b.map Prod.fst) (ha : (a.map Prod.fst).Nodup)
    (h : ∀ name, a.lookup name = b.lookup name) : a = b := by
  induction a generalizing b with
  | nil => exact (List.map_eq_nil_iff.mp hkeys.symm).symm
  | cons e a ih =>
    cases b with
    | nil => cases hkeys
    | cons f b =>
      obtain ⟨name, x⟩ := e
      obtain ⟨other, y⟩ := f
      obtain ⟨hname, hrest⟩ := List.cons.inj hkeys
      obtain rfl : name = other := hname
      obtain ⟨hnew, ha⟩ := List.nodup_cons.mp ha
      have hx : x = y := by simpa [lookup_cons] using h name
      have hab : a = b := ih hrest ha fun k => by
        by_cases hk : k = name
        · rw [hk, lookup_eq_none_iff.mpr hnew, lookup_eq_none_iff.mpr (hrest ▸ hnew)]
        · simpa [lookup_cons, hk] using h k
      rw [hx, hab]

end RecordStore.Entries
