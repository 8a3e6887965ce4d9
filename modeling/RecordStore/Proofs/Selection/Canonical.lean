import RecordStore.Proofs.Selection.Flattened
import RecordStore.Proofs.Value.Equality
import RecordStore.Proofs.Value.Shape

namespace RecordStore.Selector

section Union

variable {a b : Selector}

theorem Normal.namesOnce (h : a.Normal) : a.NamesOnce := by
  induction h with
  | all => exact .all
  | fields hk _ _ ih => exact .fields hk ih

theorem Canonical.namesOnce (h : a.Canonical) : a.NamesOnce := by
  obtain rfl | h := h
  · exact .nothing
  · exact h.namesOnce

theorem Normal.isNothing_eq_false (h : a.Normal) : a.isNothing = false := by
  cases h <;> rfl

theorem Normal.merge (ha : a.Normal) (hb : b.Normal) : (a.merge b).Normal := by
  induction ha generalizing b with
  | all =>
    rw [all_merge]
    exact .all
  | @fields own ho hn hs ih =>
    cases hb with
    | all => exact .all
    | @fields entries hk hn' hs' =>
      rw [merge_fields]
      apply Normal.fields (nodup_keys_mergeEntries ho hk)
      · intro e he
        obtain hown | hother | ⟨s, t, hown, -, -⟩ := mem_mergeEntries ho hk he
        · exact hn e hown
        · exact hn' e hother
        · exact hn (e.1, s) hown
      · intro e he
        obtain hown | hother | ⟨s, t, hown, hother, hmerged⟩ := mem_mergeEntries ho hk he
        · exact hs e hown
        · exact hs' e hother
        · rw [hmerged]
          exact ih _ hown (hs' _ hother)

theorem Canonical.merge (ha : a.Canonical) (hb : b.Canonical) : (a.merge b).Canonical := by
  obtain rfl | ha := ha
  · rwa [nothing_merge]
  obtain rfl | hb := hb
  · exact .inr ha
  · exact .inr (ha.merge hb)

theorem normal_single {name : String} (hname : Path.IsName name) (ha : a.Normal) :
    Normal (fields [(name, a)]) :=
  normal_cons_iff.mpr ⟨List.not_mem_nil, hname, ha, normal_fields_nil⟩

theorem Canonical.insert (ha : a.Canonical) {name : String} (hname : Path.IsName name) :
    (a.insert name).Canonical := by
  have hwhole : Normal (fields [(name, all)]) := normal_single hname .all
  obtain rfl | ha := ha
  · exact .inr hwhole
  · cases a with
    | all => exact .inr .all
    | nothing => exact .inr hwhole
    | fields entries => exact .inr (ha.merge hwhole)

end Union

section Read

variable {s t : Selector}

theorem normal_nest {leaf : Selector} (hleaf : leaf.Normal) {names : List String}
    (hn : ∀ name ∈ names, Path.IsName name) : (nest leaf names).Normal := by
  induction names with
  | nil => exact hleaf
  | cons name names ih =>
    obtain ⟨hname, hn⟩ := List.forall_mem_cons.mp hn
    exact normal_single hname (ih hn)

theorem ofPath_eq_ok {dotted : String} {leaf : Selector} (h : ofPath dotted leaf = .ok s) :
    "" ∉ (Path.ofString dotted).names ∧ s = nest leaf (Path.ofString dotted).names := by
  rw [ofPath] at h
  split at h
  · cases h
  · rename_i hc
    exact ⟨fun hm => hc (List.contains_iff_mem.mpr hm), (Except.ok.inj h).symm⟩

theorem normal_ofPath {dotted : String} {leaf : Selector} (hleaf : leaf.Normal)
    (h : ofPath dotted leaf = .ok s) : s.Normal := by
  obtain ⟨hempty, rfl⟩ := ofPath_eq_ok h
  apply normal_nest hleaf
  intro name hm
  exact Path.isName_of_mem_names hm fun he => hempty (he ▸ hm)

theorem normal_addNameValues {items : List Value} (hs : s.Normal)
    (h : addNameValues s items = .ok t) : t.Normal := by
  induction items generalizing s with
  | nil =>
    obtain rfl := Except.ok.inj h
    exact hs
  | cons v items ih =>
    cases v with
    | string name =>
      obtain ⟨sub, hsub, hrest⟩ := bind_eq_ok.mp h
      exact ih (hs.merge (normal_ofPath .all hsub)) hrest
    | _ => cases h

theorem normal_addEntries {entries : List (String × Value)}
    (hparts : ∀ e ∈ entries, ∀ sub, ofValue e.2 = .ok sub → sub.Canonical) (hs : s.Normal)
    (h : addEntries s entries = .ok t) : t.Normal := by
  induction entries generalizing s with
  | nil =>
    obtain rfl := Except.ok.inj h
    exact hs
  | cons e entries ih =>
    obtain ⟨hpart, hparts⟩ := List.forall_mem_cons.mp hparts
    obtain ⟨sub, hsub, hrest⟩ := bind_eq_ok.mp h
    obtain rfl | hnormal := hpart sub hsub
    · exact ih hparts hs hrest
    · simp only [hnormal.isNothing_eq_false] at hrest
      obtain ⟨nested, hnested, hrest⟩ := bind_eq_ok.mp hrest
      exact ih hparts (hs.merge (normal_ofPath hnormal hnested)) hrest

theorem canonical_ofValue {v : Value} (h : ofValue v = .ok s) : s.Canonical := by
  induction v using Value.parts_induction generalizing s with
  | leaf v hl =>
    cases v with
    | boolean b =>
      obtain rfl := Except.ok.inj h
      cases b with
      | true => exact .inr .all
      | false => exact .inl rfl
    | document d => exact absurd rfl (hl.1 d)
    | array items => exact absurd rfl (hl.2.2 items)
    | _ => cases h
  | inDocument d ih => exact .inr (normal_addEntries (fun e he _ => ih e he) normal_fields_nil h)
  | inScope source scope => cases h
  | inArray items => exact .inr (normal_addNameValues normal_fields_nil h)

end Read

section Written

variable {entries : List (String × Selector)}

def writtenEntries (entries : List (String × Selector)) : Document :=
  entries.map fun e => (e.1, e.2.toValue)

theorem entriesToDocument_eq {d : Document} (h : (d.keys ++ entries.map Prod.fst).Nodup) :
    entriesToDocument d entries = d ++ writtenEntries entries := by
  induction entries generalizing d with
  | nil => exact (List.append_nil d).symm
  | cons e entries ih =>
    have hnew : e.1 ∉ d.keys := fun hm =>
      (List.nodup_append.mp h).2.2 e.1 hm e.1 List.mem_cons_self rfl
    have hrest : ((d ++ [(e.1, e.2.toValue)]).keys ++ entries.map Prod.fst).Nodup := by
      simpa [Document.keys] using h
    rw [entriesToDocument, Document.insert_of_not_mem hnew, ih hrest, List.append_assoc]
    rfl

theorem toValue_fields (hk : (entries.map Prod.fst).Nodup) :
    (fields entries).toValue = .document (writtenEntries entries) := by
  rw [toValue, @entriesToDocument_eq entries [] hk, List.nil_append]

theorem ofPath_of_isName {name : String} (h : Path.IsName name) (leaf : Selector) :
    ofPath name leaf = .ok (fields [(name, leaf)]) := by
  have hnames : (Path.ofString name).names = [name] := by
    rw [Path.ofString_of_isName h]
    rfl
  have hne : [name].contains "" = false := by simpa using h.1
  rw [ofPath, hnames]
  exact if_neg (Bool.eq_false_iff.mp hne)

theorem addEntries_written {own : List (String × Selector)}
    (hk : ((own ++ entries).map Prod.fst).Nodup) (hn : ∀ e ∈ entries, Path.IsName e.1)
    (hs : ∀ e ∈ entries, e.2.Normal ∧ ofValue e.2.toValue = .ok e.2) :
    addEntries (fields own) (writtenEntries entries) = .ok (fields (own ++ entries)) := by
  induction entries generalizing own with
  | nil => rw [List.append_nil]; rfl
  | cons e entries ih =>
    obtain ⟨name, s⟩ := e
    obtain ⟨hname, hn⟩ := List.forall_mem_cons.mp hn
    obtain ⟨⟨hnormal, hread⟩, hs⟩ := List.forall_mem_cons.mp hs
    have hnew : name ∉ own.map Prod.fst := Entries.not_mem_of_nodup_append hk
    have hsplit : own ++ (name, s) :: entries = own ++ [(name, s)] ++ entries := by simp
    rw [hsplit] at hk ⊢
    rw [← ih hk hn hs, ← merge_single_new hnew]
    change addEntries (fields own) ((name, s.toValue) :: writtenEntries entries) = _
    simp only [addEntries, hread, bind, Except.bind, hnormal.isNothing_eq_false,
      ofPath_of_isName hname]
    rfl

theorem Normal.ofValue_toValue {s : Selector} (h : s.Normal) : ofValue s.toValue = .ok s := by
  induction h with
  | all => rfl
  | @fields entries hk hn hs ih =>
    rw [toValue_fields hk]
    exact @addEntries_written entries [] hk hn fun e he => ⟨hs e he, ih e he⟩

theorem Canonical.ofValue_toValue {s : Selector} (h : s.Canonical) : ofValue s.toValue = .ok s := by
  obtain rfl | h := h
  · rfl
  · exact h.ofValue_toValue

end Written

/-- Whatever is read is canonical, and the canonical selections are those that are written as a
value that reads as themselves. Unions of them are canonical, and so they are with a further
attribute. -/
theorem canonical_iff_reads_back {a b : Selector} (ha : a.Canonical) (hb : b.Canonical)
    {name : String} (hname : Path.IsName name) :
    (∀ v s, ofValue v = .ok s → s.Canonical) ∧ (∀ s, s.Canonical ↔ ofValue s.toValue = .ok s) ∧
      (a.merge b).Canonical ∧ (a.insert name).Canonical :=
  ⟨fun _ _ => canonical_ofValue, fun _ => ⟨fun h => h.ofValue_toValue, canonical_ofValue⟩,
    ha.merge hb, ha.insert hname⟩

/-- A dotted name, a list of names and a document of selections for one attribute, entries that
select nothing at two depths, and an empty selection that stays. -/
theorem canonical_iff_reads_back_film :
    let raw : Value := .document [("cast.lead", .boolean true), ("year", .boolean false),
      ("cast", .array [.string "double.name"]), ("crew", .document []),
      ("director", .document [("born", .boolean false), ("name", .boolean true)])]
    let a : Selector := .fields [
      ("cast", .fields [("lead", .all), ("double", .fields [("name", .all)])]),
      ("crew", .fields []), ("director", .fields [("name", .all)])]
    let b : Selector := .fields [("title", .all), ("crew", .fields [("editor", .all)]),
      ("cast", .all)]
    a.Canonical ∧ b.Canonical ∧ Path.IsName "year" ∧ ofValue raw = .ok a ∧
      ofValue a.toValue = .ok a ∧ (a.merge b).Canonical ∧ (a.insert "year").Canonical ∧
      a.merge b = .fields [("cast", .all), ("crew", .fields [("editor", .all)]),
        ("director", .fields [("name", .all)]), ("title", .all)] := by
  intro raw a b
  have hraw : ofValue raw = .ok a := rfl
  have ha : a.Canonical := canonical_ofValue hraw
  have hb : b.Canonical := canonical_ofValue (rfl : ofValue b.toValue = .ok b)
  have hname : Path.IsName "year" := by decide
  obtain ⟨-, hback, hmerge, hinsert⟩ := canonical_iff_reads_back ha hb hname
  exact ⟨ha, hb, hname, hraw, (hback a).mp ha, hmerge, hinsert, rfl⟩

end RecordStore.Selector
