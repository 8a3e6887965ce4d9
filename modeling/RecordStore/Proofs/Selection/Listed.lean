import RecordStore.Proofs.Selection.Inside

namespace RecordStore.Selector

section Rows

variable {row q : List String} {rows : List (List String)}

theorem namesOnce_nest {leaf : Selector} (h : leaf.NamesOnce) (names : List String) :
    (nest leaf names).NamesOnce := by
  induction names with
  | nil => exact h
  | cons name names ih =>
    exact .fields (List.nodup_singleton name) (List.forall_mem_singleton.mpr ih)

theorem get_nest_cons (leaf : Selector) (name other : String) (names : List String) :
    (nest leaf (name :: names)).get other = if other = name then nest leaf names else nothing :=
  get_fields_cons name other (nest leaf names) []

theorem inside_nest_eq_all_iff : (nest all row).inside q = all ↔ row <+: q := by
  induction row generalizing q with
  | nil => exact iff_of_true (inside_all q) List.nil_prefix
  | cons name row ih =>
    cases q with
    | nil => exact iff_of_false nofun nofun
    | cons other q =>
      rw [inside_cons, get_nest_cons, List.cons_prefix_cons]
      by_cases h : other = name
      · rw [if_pos h, ih, and_iff_right h.symm]
      · rw [if_neg h, inside_nothing]
        exact iff_of_false nofun fun hp => h hp.1.symm

theorem inside_nest_eq_nothing_iff : (nest all row).inside q = nothing ↔ RowsApart row q := by
  induction row generalizing q with
  | nil =>
    rw [nest, List.foldr_nil, inside_all]
    exact iff_of_false nofun fun h => h.1 List.nil_prefix
  | cons name row ih =>
    cases q with
    | nil => exact iff_of_false nofun fun h => h.2 List.nil_prefix
    | cons other q =>
      rw [inside_cons, get_nest_cons]
      by_cases h : other = name
      · subst h
        rw [if_pos rfl, ih]
        simp only [RowsApart, List.cons_prefix_cons, true_and]
      · rw [if_neg h, inside_nothing]
        exact iff_of_true rfl (rowsApart_of_ne (Ne.symm h) row q)

theorem inside_addRows_eq_all_iff (s : Selector) :
    (s.addRows rows).inside q = all ↔ s.inside q = all ∨ ∃ row ∈ rows, row <+: q := by
  induction rows generalizing s with
  | nil => simp [addRows]
  | cons row rows ih =>
    have hstep : s.addRows (row :: rows) = (s.merge (nest all row)).addRows rows := rfl
    rw [hstep, ih, inside_merge s (namesOnce_nest .all row), merge_eq_all_iff,
      inside_nest_eq_all_iff, or_assoc]
    simp only [List.mem_cons, exists_eq_or_imp]

theorem inside_addRows_eq_nothing_iff (s : Selector) :
    (s.addRows rows).inside q = nothing ↔
      s.inside q = nothing ∧ ∀ row ∈ rows, RowsApart row q := by
  induction rows generalizing s with
  | nil => simp [addRows]
  | cons row rows ih =>
    have hstep : s.addRows (row :: rows) = (s.merge (nest all row)).addRows rows := rfl
    rw [hstep, ih, inside_merge s (namesOnce_nest .all row), merge_eq_nothing_iff,
      inside_nest_eq_nothing_iff, List.forall_mem_cons, and_assoc]

end Rows

section Names

variable {names : List String} {s t : Selector}

theorem addNameValues_strings (s : Selector) (names : List String) :
    addNameValues s (names.map .string) = addNames s names := by
  induction names generalizing s with
  | nil => rfl
  | cons name names ih =>
    rw [List.map_cons, addNameValues, addNames]
    simp only [ih]

theorem addNames_eq_ok_iff :
    addNames s names = .ok t ↔
      (∀ row ∈ Path.rows names, "" ∉ row) ∧ s.addRows (Path.rows names) = t := by
  constructor
  · intro h
    have hrows : ∀ row ∈ Path.rows names, "" ∉ row := by
      induction names generalizing s with
      | nil => exact nofun
      | cons name names ih =>
        obtain ⟨sub, hsub, hrest⟩ := bind_eq_ok.mp h
        exact List.forall_mem_cons.mpr ⟨(ofPath_eq_ok hsub).1, ih hrest⟩
    rw [addNames_eq_ok hrows] at h
    exact ⟨hrows, Except.ok.inj h⟩
  · rintro ⟨hrows, rfl⟩
    exact addNames_eq_ok hrows s

theorem normal_of_ofNames (h : ofNames names = .ok s) : s.Normal := by
  rw [ofNames, ← addNameValues_strings] at h
  exact normal_addNameValues normal_fields_nil h

theorem exists_ofNames_iff : (∃ s, ofNames names = .ok s) ↔
    ∀ name ∈ names, name ≠ "" ∧ "" ∉ (Path.ofString name).names := by
  have hread : (∃ s, ofNames names = .ok s) ↔ ∀ row ∈ Path.rows names, "" ∉ row := by
    simp only [ofNames, addNames_eq_ok_iff, exists_and_left, exists_eq', and_true]
  rw [hread, Path.rows, List.forall_mem_map]
  apply forall₂_congr
  intro name _
  -- the empty text has one part, which is empty
  refine (and_iff_right_of_imp ?_).symm
  rintro hparts rfl
  exact hparts (List.mem_singleton_self "")

theorem inside_empty {q : List String} (hq : q ≠ []) : (fields []).inside q = nothing := by
  obtain ⟨name, rest, rfl⟩ := List.exists_cons_of_ne_nil hq
  exact inside_nothing rest

theorem inside_ofNames_eq_all_iff (hs : ofNames names = .ok s) {q : List String} (hq : q ≠ []) :
    s.inside q = all ↔ ∃ name ∈ names, (Path.ofString name).names <+: q := by
  obtain ⟨-, rfl⟩ := addNames_eq_ok_iff.mp hs
  rw [inside_addRows_eq_all_iff, inside_empty hq, or_iff_right nofun]
  simp only [Path.mem_rows, exists_exists_and_eq_and]

theorem inside_ofNames_eq_nothing_iff (hs : ofNames names = .ok s) {q : List String}
    (hq : q ≠ []) :
    s.inside q = nothing ↔ ∀ name ∈ names, RowsApart (Path.ofString name).names q := by
  obtain ⟨-, rfl⟩ := addNames_eq_ok_iff.mp hs
  rw [inside_addRows_eq_nothing_iff, inside_empty hq, and_iff_right rfl, Path.rows,
    List.forall_mem_map]

theorem exists_fields_iff : (∃ entries, s = fields entries) ↔ s ≠ all ∧ s ≠ nothing := by
  cases s <;> simp

theorem inside_ofNames_eq_fields_iff (hs : ofNames names = .ok s) {q : List String}
    (hq : q ≠ []) :
    (∃ entries, s.inside q = fields entries) ↔
      (∀ name ∈ names, ¬ (Path.ofString name).names <+: q) ∧
        ∃ name ∈ names, q <+: (Path.ofString name).names := by
  rw [exists_fields_iff, ne_eq, inside_ofNames_eq_all_iff hs hq, ne_eq,
    inside_ofNames_eq_nothing_iff hs hq]
  simp only [not_exists, not_and, not_forall, exists_prop]
  refine and_congr_right fun hends => exists_congr fun name => and_congr_right fun hm => ?_
  rw [RowsApart, and_iff_right (hends name hm), not_not]

theorem ofNames_congr {others : List String} (h : ∀ name, name ∈ others ↔ name ∈ names)
    (hs : ofNames names = .ok s) : ∃ t, ofNames others = .ok t ∧ s.Alike t := by
  have hvalid := exists_ofNames_iff.mp ⟨s, hs⟩
  obtain ⟨t, ht⟩ := exists_ofNames_iff.mpr fun name hm => hvalid name ((h name).mp hm)
  refine ⟨t, ht, ?_⟩
  have hrows : ∀ row, row ∈ Path.rows others ↔ row ∈ Path.rows names := by
    intro row
    simp only [Path.mem_rows, h]
  obtain ⟨-, rfl⟩ := addNames_eq_ok_iff.mp hs
  obtain ⟨-, rfl⟩ := addNames_eq_ok_iff.mp ht
  apply alike_of_inside (normal_of_ofNames hs) (normal_of_ofNames ht)
  · intro q
    rw [inside_addRows_eq_all_iff, inside_addRows_eq_all_iff]
    simp only [hrows]
  · intro q
    rw [inside_addRows_eq_nothing_iff, inside_addRows_eq_nothing_iff]
    simp only [hrows]

end Names

/-- A list of names is read, as a value or as it is, if no name is empty or has an empty part. What
is read takes everything of an attribute if a name ends there or above, nothing if the attribute and
every name are apart, and some attributes inside it if it is on the way to a name. The order of the
names and their repetition are seen in the order of the entries only. -/
theorem ofNames_selects_named (names : List String) :
    ofValue (.array (names.map .string)) = ofNames names ∧
      ((∃ s, ofNames names = .ok s) ↔
        ∀ name ∈ names, name ≠ "" ∧ "" ∉ (Path.ofString name).names) ∧
      ∀ s, ofNames names = .ok s →
        (∀ q, q ≠ [] →
          (s.inside q = all ↔ ∃ name ∈ names, (Path.ofString name).names <+: q) ∧
          (s.inside q = nothing ↔ ∀ name ∈ names, RowsApart (Path.ofString name).names q) ∧
          ((∃ entries, s.inside q = fields entries) ↔
            (∀ name ∈ names, ¬ (Path.ofString name).names <+: q) ∧
              ∃ name ∈ names, q <+: (Path.ofString name).names)) ∧
        ∀ others, (∀ name, name ∈ others ↔ name ∈ names) →
          ∃ t, ofNames others = .ok t ∧ s.Alike t := by
  refine ⟨addNameValues_strings (fields []) names, exists_ofNames_iff, fun s hs => ⟨?_, ?_⟩⟩
  · intro q hq
    exact ⟨inside_ofNames_eq_all_iff hs hq, inside_ofNames_eq_nothing_iff hs hq,
      inside_ofNames_eq_fields_iff hs hq⟩
  · intro others h
    exact ofNames_congr h hs

/-- One name goes on from another one that stands before it, another from one that stands after it,
and a name is given twice. -/
theorem ofNames_selects_named_film :
    let names := ["cast", "director.home.city", "cast.lead", "director.home", "year", "cast"]
    let others := ["year", "director.home", "cast.lead", "cast", "director.home.city"]
    let s : Selector := .fields [("cast", .all), ("director", .fields [("home", .all)]),
      ("year", .all)]
    (∀ name, name ∈ others ↔ name ∈ names) ∧ ofNames names = .ok s ∧
      ofValue (.array (names.map .string)) = .ok s ∧ s.inside ["cast", "double"] = .all ∧
      s.inside ["year", "month"] = .all ∧ s.inside ["director", "born"] = .nothing ∧
      (∃ entries, s.inside ["director"] = .fields entries) ∧
      (∃ t, ofNames others = .ok t ∧ s.Alike t) ∧
      ¬ ∃ t, ofNames ["year", "director..home"] = .ok t := by
  intro names others s
  have hothers : ∀ name, name ∈ others ↔ name ∈ names := fun name => by
    simp only [names, others, List.mem_cons, List.not_mem_nil, or_false]
    tauto
  have hrows : Path.rows names = [["cast"], ["director", "home", "city"], ["cast", "lead"],
      ["director", "home"], ["year"], ["cast"]] := by decide
  have hs : ofNames names = .ok s := by
    rw [ofNames, addNames_eq_ok (by rw [hrows]; decide), hrows]
    simp [addRows, nest, merge, mergeEntries, alter, s]
  obtain ⟨hvalue, -, hread⟩ := ofNames_selects_named names
  obtain ⟨hinside, hcongr⟩ := hread s hs
  have hbad := (ofNames_selects_named ["year", "director..home"]).2.1
  obtain ⟨hcast, -, -⟩ := hinside ["cast", "double"] (by simp)
  obtain ⟨hyear, -, -⟩ := hinside ["year", "month"] (by simp)
  obtain ⟨-, hborn, -⟩ := hinside ["director", "born"] (by simp)
  obtain ⟨-, -, hdirector⟩ := hinside ["director"] (by simp)
  refine ⟨hothers, hs, hvalue.trans hs, hcast.mpr ?_, hyear.mpr ?_, hborn.mpr ?_,
    hdirector.mpr ?_, hcongr others hothers, fun hok => ?_⟩
  · exact ⟨"cast", by simp [names], by decide⟩
  · exact ⟨"year", by simp [names], by decide⟩
  · unfold RowsApart
    decide
  · exact ⟨by decide, "director.home", by simp [names], by decide⟩
  · exact (hbad.mp hok "director..home" (by simp)).2 (by decide)

end RecordStore.Selector
