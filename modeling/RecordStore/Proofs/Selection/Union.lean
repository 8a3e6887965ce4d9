import Mathlib.Data.List.Nodup
import RecordStore.Proofs.Value.Entries
import RecordStore.Selection.Selector

namespace RecordStore.Selector

inductive NamesOnce : Selector → Prop
  | all : NamesOnce all
  | nothing : NamesOnce nothing
  | fields {entries : List (String × Selector)} (hk : (entries.map Prod.fst).Nodup)
      (hs : ∀ e ∈ entries, NamesOnce e.2) : NamesOnce (fields entries)

inductive Alike : Selector → Selector → Prop
  | refl (s : Selector) : Alike s s
  | fields {a b : List (String × Selector)} (hk : (a.map Prod.fst).Perm (b.map Prod.fst))
      (h : ∀ name s t, a.lookup name = some s → b.lookup name = some t → Alike s t) :
      Alike (fields a) (fields b)

@[simp] theorem merge_all (s : Selector) : s.merge all = all := rfl

@[simp] theorem merge_nothing (s : Selector) : s.merge nothing = s := rfl

@[simp] theorem all_merge (s : Selector) : all.merge s = all := by
  cases s <;> rfl

@[simp] theorem nothing_merge (s : Selector) : nothing.merge s = s := by
  cases s <;> rfl

theorem merge_fields (own entries : List (String × Selector)) :
    (fields own).merge (fields entries) = fields (mergeEntries own entries) := rfl

section Alter

variable (f : Option Selector → Selector) {name : String} {entries : List (String × Selector)}

theorem lookup_alter (name other : String) (entries : List (String × Selector)) :
    (alter f name entries).lookup other =
      if other = name then some (f (entries.lookup name)) else entries.lookup other := by
  induction entries with
  | nil => simp [alter, Entries.lookup_cons]
  | cons e entries ih =>
    obtain ⟨k, s⟩ := e
    by_cases hk : k = name
    · subst hk
      by_cases ho : other = k <;> simp [alter, Entries.lookup_cons, ho]
    · by_cases ho : other = k
      · subst ho
        simp [alter, hk]
      · simp [alter, Entries.lookup_cons, hk, ho, ih, Ne.symm hk]

theorem keys_alter (name : String) (entries : List (String × Selector)) :
    (alter f name entries).map Prod.fst =
      if name ∈ entries.map Prod.fst then entries.map Prod.fst
      else entries.map Prod.fst ++ [name] := by
  induction entries with
  | nil => rfl
  | cons e entries ih =>
    obtain ⟨k, s⟩ := e
    by_cases hk : k = name
    · simp [alter, hk]
    · by_cases hm : name ∈ entries.map Prod.fst <;> simp [alter, hk, Ne.symm hk, ih, hm]

theorem alter_append (h : name ∉ entries.map Prod.fst) (more : List (String × Selector)) :
    alter f name (entries ++ more) = entries ++ alter f name more := by
  induction entries with
  | nil => rfl
  | cons e entries ih =>
    obtain ⟨hk, hrest⟩ := not_or.mp fun hm => h (List.mem_cons.mpr hm)
    rw [List.cons_append, alter, if_neg (Ne.symm hk), ih hrest, List.cons_append]

end Alter

theorem merge_single (own : List (String × Selector)) (name : String) (s : Selector) :
    (fields own).merge (fields [(name, s)]) = fields (alter (fun
      | some t => t.merge s
      | none => s) name own) := by
  rw [merge, mergeEntries]
  rfl

theorem merge_single_new {own : List (String × Selector)} {name : String}
    (h : name ∉ own.map Prod.fst) (s : Selector) :
    (fields own).merge (fields [(name, s)]) = fields (own ++ [(name, s)]) := by
  have halter := alter_append (fun
    | some t => t.merge s
    | none => s) h []
  rw [List.append_nil] at halter
  rw [merge_single, halter, alter]

section Entries

variable {own entries : List (String × Selector)}

theorem keys_mergeEntries (own : List (String × Selector))
    (h : (entries.map Prod.fst).Nodup) :
    (mergeEntries own entries).map Prod.fst =
      own.map Prod.fst ++ (entries.map Prod.fst).filter (· ∉ own.map Prod.fst) := by
  induction entries generalizing own with
  | nil => simp [mergeEntries]
  | cons e entries ih =>
    obtain ⟨name, s⟩ := e
    obtain ⟨hnew, hrest⟩ := List.nodup_cons.mp h
    rw [mergeEntries, ih _ hrest, keys_alter, List.map_cons, List.filter_cons]
    by_cases hm : name ∈ own.map Prod.fst
    · simp only [hm, if_true]
      rfl
    · have hsame : (entries.map Prod.fst).filter (· ∉ own.map Prod.fst ++ [name]) =
          (entries.map Prod.fst).filter (· ∉ own.map Prod.fst) :=
        List.filter_congr fun other ho => by
          have hne : other ≠ name := fun he => hnew (he ▸ ho)
          simp [hne]
      simp only [hm, if_false, hsame]
      simp

theorem nodup_keys_mergeEntries (ho : (own.map Prod.fst).Nodup)
    (h : (entries.map Prod.fst).Nodup) : ((mergeEntries own entries).map Prod.fst).Nodup := by
  rw [keys_mergeEntries own h]
  refine ho.append (h.filter _) fun name hm hf => ?_
  exact of_decide_eq_true (List.mem_filter.mp hf).2 hm

theorem mem_keys_mergeEntries (h : (entries.map Prod.fst).Nodup) {name : String} :
    name ∈ (mergeEntries own entries).map Prod.fst ↔
      name ∈ own.map Prod.fst ∨ name ∈ entries.map Prod.fst := by
  rw [keys_mergeEntries own h, List.mem_append, List.mem_filter]
  by_cases hm : name ∈ own.map Prod.fst <;> simp [hm]

theorem lookup_mergeEntries (own : List (String × Selector)) (h : (entries.map Prod.fst).Nodup)
    (name : String) :
    (mergeEntries own entries).lookup name =
      Option.merge merge (own.lookup name) (entries.lookup name) := by
  induction entries generalizing own with
  | nil =>
    rw [mergeEntries]
    cases own.lookup name <;> rfl
  | cons e entries ih =>
    obtain ⟨k, s⟩ := e
    obtain ⟨hnew, hrest⟩ := List.nodup_cons.mp h
    rw [mergeEntries, ih _ hrest, lookup_alter, Entries.lookup_cons]
    by_cases hk : name = k
    · rw [if_pos hk, if_pos hk, hk, Entries.lookup_eq_none_iff.mpr hnew]
      cases own.lookup k <;> rfl
    · rw [if_neg hk, if_neg hk]

theorem mem_mergeEntries (ho : (own.map Prod.fst).Nodup) (h : (entries.map Prod.fst).Nodup)
    {e : String × Selector} (he : e ∈ mergeEntries own entries) :
    e ∈ own ∨ e ∈ entries ∨
      ∃ s t, (e.1, s) ∈ own ∧ (e.1, t) ∈ entries ∧ e.2 = s.merge t := by
  have hlookup := lookup_mergeEntries own h e.1
  rw [Entries.lookup_of_mem (nodup_keys_mergeEntries ho h) he, eq_comm,
    Option.merge_eq_some_iff] at hlookup
  obtain ⟨hown, -⟩ | ⟨-, hother⟩ | ⟨s, t, hown, hother, hmerged⟩ := hlookup
  · exact .inl (Entries.mem_of_lookup hown)
  · exact .inr (.inl (Entries.mem_of_lookup hother))
  · exact .inr (.inr
      ⟨s, t, Entries.mem_of_lookup hown, Entries.mem_of_lookup hother, hmerged.symm⟩)

end Entries

variable {a b c : Selector}

theorem get_merge (a : Selector) (hb : b.NamesOnce) (name : String) :
    (a.merge b).get name = (a.get name).merge (b.get name) := by
  cases hb with
  | all => rfl
  | nothing => rfl
  | @fields entries hk _ =>
    cases a with
    | all => rw [all_merge, get, all_merge]
    | nothing => rw [nothing_merge, get, nothing_merge]
    | fields own =>
      rw [merge_fields, get, get, get, lookup_mergeEntries own hk]
      cases own.lookup name with
      | none => cases entries.lookup name <;> simp [Option.merge]
      | some s => cases entries.lookup name <;> rfl

theorem NamesOnce.merge (ha : a.NamesOnce) (hb : b.NamesOnce) : (a.merge b).NamesOnce := by
  induction ha generalizing b with
  | all =>
    rw [all_merge]
    exact .all
  | nothing => rwa [nothing_merge]
  | @fields own ho hs ih =>
    cases hb with
    | all => exact .all
    | nothing => exact .fields ho hs
    | @fields entries hk hs' =>
      refine .fields (nodup_keys_mergeEntries ho hk) fun e he => ?_
      obtain hown | hother | ⟨s, t, hown, hother, hmerged⟩ := mem_mergeEntries ho hk he
      · exact hs e hown
      · exact hs' e hother
      · rw [hmerged]
        exact ih _ hown (hs' _ hother)

theorem merge_self (ha : a.NamesOnce) : a.merge a = a := by
  induction ha with
  | all => rfl
  | nothing => rfl
  | @fields entries hk hs ih =>
    have hkeys : (mergeEntries entries entries).map Prod.fst = entries.map Prod.fst := by
      rw [keys_mergeEntries entries hk]
      simp
    rw [merge_fields]
    refine congrArg Selector.fields (Entries.eq_of_lookup hkeys (hkeys ▸ hk) fun name => ?_)
    rw [lookup_mergeEntries entries hk]
    cases h : entries.lookup name with
    | none => rfl
    | some s => exact congrArg some (ih _ (Entries.mem_of_lookup h))

theorem merge_assoc (ha : a.NamesOnce) (hb : b.NamesOnce) (hc : c.NamesOnce) :
    (a.merge b).merge c = a.merge (b.merge c) := by
  induction ha generalizing b c with
  | all => rw [all_merge, all_merge, all_merge]
  | nothing => rw [nothing_merge, nothing_merge]
  | @fields own ho hs ih =>
    cases hb with
    | all => rw [merge_all, all_merge, merge_all]
    | nothing => rw [merge_nothing, nothing_merge]
    | @fields entries hk hs' =>
      cases hc with
      | all => rfl
      | nothing => rfl
      | @fields more hm hs'' =>
        have hleft := nodup_keys_mergeEntries ho hk
        have hright := nodup_keys_mergeEntries hk hm
        have hkeys : (mergeEntries (mergeEntries own entries) more).map Prod.fst =
            (mergeEntries own (mergeEntries entries more)).map Prod.fst := by
          rw [keys_mergeEntries _ hm, keys_mergeEntries own hk, keys_mergeEntries own hright,
            keys_mergeEntries entries hm, List.filter_append, List.filter_filter, List.append_assoc]
          -- a name is new to both or to neither
          congr 2
          refine List.filter_congr fun name _ => ?_
          by_cases hn : name ∈ own.map Prod.fst <;> simp [hn]
        simp only [merge_fields]
        refine congrArg Selector.fields
          (Entries.eq_of_lookup hkeys (nodup_keys_mergeEntries hleft hm) fun name => ?_)
        rw [lookup_mergeEntries _ hm, lookup_mergeEntries own hk, lookup_mergeEntries own hright,
          lookup_mergeEntries entries hm]
        cases hx : own.lookup name with
        | none => simp
        | some s =>
          cases hy : entries.lookup name with
          | none => simp
          | some t =>
            cases hz : more.lookup name with
            | none => rfl
            | some u =>
              exact congrArg some (ih _ (Entries.mem_of_lookup hx)
                (hs' _ (Entries.mem_of_lookup hy)) (hs'' _ (Entries.mem_of_lookup hz)))

theorem merge_comm (ha : a.NamesOnce) (hb : b.NamesOnce) : (a.merge b).Alike (b.merge a) := by
  induction ha generalizing b with
  | all =>
    rw [all_merge]
    exact .refl _
  | nothing =>
    rw [nothing_merge]
    exact .refl _
  | @fields own ho hs ih =>
    cases hb with
    | all =>
      rw [all_merge]
      exact .refl _
    | nothing =>
      rw [nothing_merge]
      exact .refl _
    | @fields entries hk hs' =>
      have hperm : ((mergeEntries own entries).map Prod.fst).Perm
          ((mergeEntries entries own).map Prod.fst) :=
        (List.perm_ext_iff_of_nodup (nodup_keys_mergeEntries ho hk)
          (nodup_keys_mergeEntries hk ho)).mpr fun name => by
            rw [mem_keys_mergeEntries hk, mem_keys_mergeEntries ho, or_comm]
      refine .fields hperm fun name s t hs ht => ?_
      rw [lookup_mergeEntries own hk] at hs
      rw [lookup_mergeEntries entries ho] at ht
      obtain ⟨hown, hother⟩ | ⟨hown, hother⟩ | ⟨u, v, hown, hother, rfl⟩ :=
        Option.merge_eq_some_iff.mp hs
      · rw [hown, hother, Option.merge_none_left] at ht
        exact Option.some.inj ht ▸ .refl s
      · rw [hown, hother, Option.merge_none_right] at ht
        exact Option.some.inj ht ▸ .refl s
      · rw [hown, hother] at ht
        exact Option.some.inj ht ▸ ih _ (Entries.mem_of_lookup hown)
          (hs' _ (Entries.mem_of_lookup hother))

/-- Union is associative and idempotent, commutative but for the order of names, with nothing and
everything as its bounds. It keeps names single and is taken name by name. -/
theorem merge_is_union (ha : a.NamesOnce) (hb : b.NamesOnce) (hc : c.NamesOnce) :
    (a.merge b).merge c = a.merge (b.merge c) ∧ a.merge a = a ∧
      (a.merge b).Alike (b.merge a) ∧
      (nothing.merge a = a ∧ a.merge nothing = a) ∧ (all.merge a = all ∧ a.merge all = all) ∧
      (a.merge b).NamesOnce ∧
      ∀ name, (a.merge b).get name = (a.get name).merge (b.get name) :=
  ⟨merge_assoc ha hb hc, merge_self ha, merge_comm ha hb, ⟨nothing_merge a, merge_nothing a⟩,
    ⟨all_merge a, merge_all a⟩, ha.merge hb, get_merge a hb⟩

/-- One selection takes nothing of an attribute and another one an attribute without its parts. -/
theorem merge_is_union_film :
    let a : Selector := .fields [("director", .fields [("name", .all)]), ("cut", .nothing),
      ("cast", .fields [])]
    let b : Selector := .fields [("cast", .fields [("lead", .all)]), ("year", .all),
      ("director", .fields [("born", .all), ("name", .fields [])])]
    let c : Selector := .fields [("cut", .fields [("length", .all)]), ("director", .all)]
    a.NamesOnce ∧ b.NamesOnce ∧ c.NamesOnce ∧
      a.merge b = .fields [("director", .fields [("name", .all), ("born", .all)]),
        ("cut", .nothing), ("cast", .fields [("lead", .all)]), ("year", .all)] ∧
      (a.merge b).merge c = a.merge (b.merge c) ∧ a.merge a = a ∧
      (a.merge b).Alike (b.merge a) ∧ (a.merge b).NamesOnce ∧
      (a.merge b).get "director" = (a.get "director").merge (b.get "director") := by
  intro a b c
  have hone : ∀ name s, NamesOnce s → NamesOnce (.fields [(name, s)]) := fun _ _ hs =>
    .fields (List.nodup_singleton _) (List.forall_mem_singleton.mpr hs)
  have hempty : NamesOnce (.fields []) := .fields List.nodup_nil nofun
  have ha : a.NamesOnce := by
    refine .fields (by decide) ?_
    simp only [List.forall_mem_cons]
    exact ⟨hone "name" _ .all, .nothing, hempty, nofun⟩
  have hb : b.NamesOnce := by
    refine .fields (by decide) ?_
    simp only [List.forall_mem_cons]
    refine ⟨hone "lead" _ .all, .all, .fields (by decide) ?_, nofun⟩
    simp only [List.forall_mem_cons]
    exact ⟨.all, hempty, nofun⟩
  have hc : c.NamesOnce := by
    refine .fields (by decide) ?_
    simp only [List.forall_mem_cons]
    exact ⟨hone "length" _ .all, .all, nofun⟩
  obtain ⟨hassoc, hself, hcomm, -, -, honce, hget⟩ := merge_is_union ha hb hc
  exact ⟨ha, hb, hc, rfl, hassoc, hself, hcomm, honce, hget "director"⟩

end RecordStore.Selector
