import RecordStore.Proofs.Store.Key
import RecordStore.Proofs.Value.Entries

namespace RecordStore

structure KeyMap where
  entries : List (Key × Document)
  nodup : (entries.map Prod.fst).Nodup

namespace KeyMap

def empty : KeyMap := ⟨[], List.nodup_nil⟩

def keys (m : KeyMap) : List Key := m.entries.map Prod.fst

def records (m : KeyMap) : List Document := m.entries.map Prod.snd

def find? (m : KeyMap) (k : Key) : Option Document := m.entries.lookup k

theorem nodup_add {m : KeyMap} {k : Key} (h : k ∉ m.keys) (d : Document) :
    ((m.entries ++ [(k, d)]).map Prod.fst).Nodup := by
  rw [List.map_append]
  refine List.nodup_append.mpr ⟨m.nodup, by simp, ?_⟩
  intro a ha b hb hab
  rw [List.map_singleton, List.mem_singleton] at hb
  rw [hab, hb] at ha
  exact h ha

/-- Adds a record at the end, unless its key is taken. -/
def add (m : KeyMap) (k : Key) (d : Document) : KeyMap :=
  if h : k ∈ m.keys then m else ⟨m.entries ++ [(k, d)], nodup_add h d⟩

def changeEntry (k : Key) (f : Document → Document) (e : Key × Document) : Key × Document :=
  if e.1 = k then (k, f e.2) else e

theorem changeEntry_fst (k : Key) (f : Document → Document) (e : Key × Document) :
    (changeEntry k f e).1 = e.1 := by
  unfold changeEntry
  split
  · exact Eq.symm ‹_›
  · rfl

theorem nodup_change (m : KeyMap) (k : Key) (f : Document → Document) :
    ((m.entries.map (changeEntry k f)).map Prod.fst).Nodup := by
  have hk : (m.entries.map (changeEntry k f)).map Prod.fst = m.entries.map Prod.fst := by
    rw [List.map_map]
    exact List.map_congr_left fun e _ => changeEntry_fst k f e
  rw [hk]
  exact m.nodup

def change (m : KeyMap) (k : Key) (f : Document → Document) : KeyMap :=
  ⟨m.entries.map (changeEntry k f), m.nodup_change k f⟩

def remove (m : KeyMap) (k : Key) : KeyMap :=
  ⟨m.entries.filter fun e => e.1 ≠ k, m.nodup.sublist (List.filter_sublist.map _)⟩

/-- Every record has the key it is under in the attribute `name`. -/
def Keyed (m : KeyMap) (name : String) : Prop := ∀ e ∈ m.entries, e.2.key? name = some e.1

section Lists

variable {entries : List (Key × Document)} {p : Document → Bool} {k : Key}

theorem find?_map_snd (hp : ∀ e ∈ entries, p e.2 = decide (e.1 = k)) :
    (entries.map Prod.snd).find? p = entries.lookup k := by
  induction entries with
  | nil => rfl
  | cons e entries ih =>
    obtain ⟨l, d⟩ := e
    obtain ⟨he, hes⟩ := List.forall_mem_cons.mp hp
    rw [List.map_cons, List.find?_cons, List.lookup_cons, ih hes, he]
    by_cases h : l = k
    · simp [h]
    · simp [h, beq_eq_false_iff_ne.mpr (Ne.symm h)]

theorem any_map_snd (hp : ∀ e ∈ entries, p e.2 = decide (e.1 = k)) :
    (entries.map Prod.snd).any p = (entries.lookup k).isSome := by
  rw [← find?_map_snd hp, Bool.eq_iff_iff, List.any_eq_true, List.find?_isSome]

theorem filter_map_snd (hp : ∀ e ∈ entries, p e.2 = decide (e.1 = k)) :
    (entries.map Prod.snd).filter (fun d => !p d) =
      (entries.filter fun e => e.1 ≠ k).map Prod.snd := by
  rw [List.filter_map]
  refine congrArg _ (List.filter_congr fun e he => ?_)
  rw [Function.comp_apply, hp e he, decide_not]

/-- Since no key repeats, what is done to the first record is done to every record of its key. -/
theorem changeFirst_map_snd (hp : ∀ e ∈ entries, p e.2 = decide (e.1 = k))
    (hk : (entries.map Prod.fst).Nodup) (f : Document → Document) :
    Collections.changeFirst p f (entries.map Prod.snd) =
      if (entries.lookup k).isSome then some ((entries.map (changeEntry k f)).map Prod.snd)
      else none := by
  induction entries with
  | nil => rfl
  | cons e entries ih =>
    obtain ⟨l, d⟩ := e
    obtain ⟨he, hes⟩ := List.forall_mem_cons.mp hp
    obtain ⟨hl, hks⟩ := List.nodup_cons.mp hk
    rw [List.map_cons, Collections.changeFirst, he, ih hes hks]
    by_cases h : l = k
    · subst h
      have hrest : entries.map (changeEntry l f) = entries := by
        refine (List.map_congr_left fun e hm => ?_).trans (List.map_id entries)
        have hne : e.1 ≠ l := fun h => hl (List.mem_map.mpr ⟨e, hm, h⟩)
        simp [changeEntry, hne]
      simp [hrest, changeEntry]
    · simp only [h, decide_false, Bool.false_eq_true, if_false, List.lookup_cons,
        beq_eq_false_iff_ne.mpr (Ne.symm h), List.map_cons, changeEntry]
      split <;> rfl

end Lists

theorem find?_eq_none_iff {m : KeyMap} {k : Key} : m.find? k = none ↔ k ∉ m.keys :=
  Entries.lookup_eq_none_iff

theorem find?_of_mem {m : KeyMap} {k : Key} {d : Document} (h : (k, d) ∈ m.entries) :
    m.find? k = some d := Entries.lookup_of_mem m.nodup h

theorem records_add {m : KeyMap} {k : Key} (h : m.find? k = none) (d : Document) :
    (m.add k d).records = m.records ++ [d] := by
  rw [add, dif_neg (find?_eq_none_iff.mp h), records, List.map_append]
  rfl

theorem Keyed.add {m : KeyMap} {name : String} (h : m.Keyed name) {k : Key} {d : Document}
    (hd : d.key? name = some k) : (m.add k d).Keyed name := by
  unfold KeyMap.add
  split
  · exact h
  · intro e he
    obtain he | he := List.mem_append.mp he
    · exact h e he
    · obtain rfl := List.mem_singleton.mp he
      exact hd

theorem Keyed.change {m : KeyMap} {name : String} (h : m.Keyed name) (k : Key)
    {f : Document → Document} (hf : ∀ d, (f d).key? name = d.key? name) :
    (m.change k f).Keyed name := by
  intro e he
  obtain ⟨e, hm, rfl⟩ := List.mem_map.mp he
  rw [changeEntry_fst, ← h e hm, changeEntry]
  split
  · exact hf e.2
  · rfl

theorem Keyed.remove {m : KeyMap} {name : String} (h : m.Keyed name) (k : Key) :
    (m.remove k).Keyed name :=
  fun e he => h e (List.mem_filter.mp he).1

theorem Keyed.exists_find? {m : KeyMap} {name : String} (h : m.Keyed name) {d : Document}
    (hd : d ∈ m.records) : ∃ k, d.key? name = some k ∧ m.find? k = some d := by
  obtain ⟨⟨k, d⟩, he, rfl⟩ := List.mem_map.mp hd
  exact ⟨k, h _ he, find?_of_mem he⟩

theorem Keyed.map_key? {m : KeyMap} {name : String} (h : m.Keyed name) :
    m.records.map (fun d => d.key? name) = m.keys.map some := by
  rw [records, keys, List.map_map, List.map_map]
  exact List.map_congr_left fun e he => h e he

end KeyMap

namespace Collections

theorem lookup_setEntry (name other : String) (ds : List Document)
    (entries : List (String × List Document)) :
    (setEntry name ds entries).lookup other =
      if other = name then some ds else entries.lookup other := by
  induction entries with
  | nil =>
    by_cases h : other = name
    · simp [setEntry, h]
    · simp [setEntry, List.lookup_cons, h, beq_eq_false_iff_ne.mpr h]
  | cons e entries ih =>
    obtain ⟨k, old⟩ := e
    by_cases hk : k = name
    · subst hk
      by_cases h : other = k
      · simp [setEntry, h]
      · simp [setEntry, List.lookup_cons, h, beq_eq_false_iff_ne.mpr h]
    · by_cases ho : other = k
      · simp [setEntry, hk, ho]
      · simp [setEntry, hk, List.lookup_cons, beq_eq_false_iff_ne.mpr ho, ih]

theorem records?_set (c : Collections) (name other : String) (ds : List Document) :
    (c.set name ds).records? other = if other = name then some ds else c.records? other :=
  lookup_setEntry name other ds c.entries

theorem records_set (c : Collections) (name other : String) (ds : List Document) :
    (c.set name ds).records other = if other = name then ds else c.records other := by
  rw [records, records?_set]
  split <;> rfl

theorem set_set (c : Collections) (name : String) (ds es : List Document) :
    (c.set name ds).set name es = c.set name es := by
  have hentries : ∀ entries : List (String × List Document),
      setEntry name es (setEntry name ds entries) = setEntry name es entries := by
    intro entries
    induction entries with
    | nil => simp [setEntry]
    | cons e entries ih =>
      obtain ⟨k, old⟩ := e
      by_cases hk : k = name
      · simp [setEntry, hk]
      · simp [setEntry, hk, ih]
  exact congrArg Collections.mk (hentries c.entries)

variable {c : Collections} {collection : String} {m : KeyMap} {id : Identifier} {k : Key}

/-- The searches of the engine find what is under the key of the identifier. -/
theorem matchesRecord_entries (hm : m.Keyed id.name) (hk : id.value.key? = some k) :
    ∀ e ∈ m.entries, id.matchesRecord e.2 = decide (e.1 = k) :=
  fun e he => Identifier.matchesRecord_eq_decide hk (hm e he)

theorem read?_eq (hc : c.records collection = m.records) (hm : m.Keyed id.name)
    (hk : id.value.key? = some k) : c.read? collection id = m.find? k := by
  rw [read?, hc]
  exact KeyMap.find?_map_snd (matchesRecord_entries hm hk)

theorem create?_eq (hc : c.records collection = m.records) (hm : m.Keyed id.name)
    (hk : id.value.key? = some k) (d : Document) :
    c.create? collection id d =
      if (m.find? k).isSome then none else some (c.set collection (m.add k d).records) := by
  have hany : m.records.any id.matchesRecord = (m.find? k).isSome :=
    KeyMap.any_map_snd (matchesRecord_entries hm hk)
  rw [create?, hc, hany]
  cases h : m.find? k with
  | none => rw [KeyMap.records_add h]
  | some => rfl

theorem update?_eq (hc : c.records collection = m.records) (hm : m.Keyed id.name)
    (hk : id.value.key? = some k) (p : Patch) :
    c.update? collection id p =
      if (m.find? k).isSome then some (c.set collection (m.change k p.apply).records)
      else none := by
  have hchange := KeyMap.changeFirst_map_snd (matchesRecord_entries hm hk) m.nodup p.apply
  rw [update?, hc, KeyMap.records, hchange, KeyMap.find?]
  cases (m.entries.lookup k).isSome <;> rfl

theorem delete?_eq (hc : c.records collection = m.records) (hm : m.Keyed id.name)
    (hk : id.value.key? = some k) :
    c.delete? collection id =
      if (m.find? k).isSome then some (c.set collection (m.remove k).records) else none := by
  have hany : m.records.any id.matchesRecord = (m.find? k).isSome :=
    KeyMap.any_map_snd (matchesRecord_entries hm hk)
  have hfilter : m.records.filter (fun d => !id.matchesRecord d) = (m.remove k).records :=
    KeyMap.filter_map_snd (matchesRecord_entries hm hk)
  rw [delete?, hc, hany, hfilter]

end Collections

end RecordStore
