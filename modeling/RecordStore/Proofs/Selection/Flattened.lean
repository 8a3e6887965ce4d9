import RecordStore.Proofs.Selection.Rows
import RecordStore.Proofs.Selection.Union

namespace RecordStore.Selector

mutual

/-- What comes back of a selection inside an attribute: an empty one takes everything. -/
def filled : Selector → Selector
  | all => all
  | nothing => nothing
  | fields [] => all
  | fields (e :: entries) => fields (filledEntries (e :: entries))

def filledEntries : List (String × Selector) → List (String × Selector)
  | [] => []
  | (name, s) :: entries => (name, s.filled) :: filledEntries entries

end

def addRows (s : Selector) (rows : List (List String)) : Selector :=
  rows.foldl (fun s row => s.merge (nest all row)) s

section Rows

variable {entries : List (String × Selector)} {row : List String}

theorem mem_entryRows_iff :
    row ∈ entryRows entries ↔ ∃ e ∈ entries, ∃ rest ∈ e.2.rows, e.1 :: rest = row := by
  induction entries with
  | nil => simp [entryRows]
  | cons e entries ih =>
    rw [entryRows, List.mem_append, ih, List.mem_map]
    simp only [List.mem_cons, exists_eq_or_imp]

theorem isName_of_mem_entryRows (hn : ∀ e ∈ entries, Path.IsName e.1)
    (hs : ∀ e ∈ entries, ∀ row ∈ e.2.rows, ∀ name ∈ row, Path.IsName name) :
    ∀ row ∈ entryRows entries, ∀ name ∈ row, Path.IsName name := by
  intro row hrow
  obtain ⟨e, he, rest, hrest, rfl⟩ := mem_entryRows_iff.mp hrow
  exact List.forall_mem_cons.mpr ⟨hn e he, hs e he rest hrest⟩

theorem Normal.isName_of_mem_rows {s : Selector} (h : s.Normal) :
    ∀ row ∈ s.rows, ∀ name ∈ row, Path.IsName name := by
  induction h with
  | all => simp [rows]
  | @fields entries _ hn _ ih =>
    by_cases hne : entries = []
    · subst hne
      simp [rows]
    · rw [rows_fields hne]
      exact isName_of_mem_entryRows hn ih

def RowsApart (r s : List String) : Prop := ¬ r <+: s ∧ ¬ s <+: r

theorem RowsApart.cons {r s : List String} (h : RowsApart r s) (name : String) :
    RowsApart (name :: r) (name :: s) := by
  rwa [RowsApart, List.cons_prefix_cons, List.cons_prefix_cons, and_iff_right rfl,
    and_iff_right rfl]

theorem rowsApart_of_ne {name other : String} (h : name ≠ other) (r s : List String) :
    RowsApart (name :: r) (other :: s) :=
  ⟨fun hp => h (List.cons_prefix_cons.mp hp).1, fun hp => h (List.cons_prefix_cons.mp hp).1.symm⟩

theorem pairwise_entryRows (hk : (entries.map Prod.fst).Nodup)
    (hs : ∀ e ∈ entries, e.2.rows.Pairwise RowsApart) :
    (entryRows entries).Pairwise RowsApart := by
  induction entries with
  | nil => exact .nil
  | cons e entries ih =>
    obtain ⟨hnew, hrest⟩ := List.nodup_cons.mp hk
    obtain ⟨he, hs⟩ := List.forall_mem_cons.mp hs
    rw [entryRows, List.pairwise_append]
    refine ⟨List.pairwise_map.mpr (he.imp fun h => h.cons e.1), ih hrest hs, ?_⟩
    intro r hr s hs
    obtain ⟨r, -, rfl⟩ := List.mem_map.mp hr
    obtain ⟨f, hf, s, -, rfl⟩ := mem_entryRows_iff.mp hs
    exact rowsApart_of_ne (fun h => hnew (List.mem_map.mpr ⟨f, hf, h.symm⟩)) r s

theorem Normal.pairwise_rows {s : Selector} (h : s.Normal) : s.rows.Pairwise RowsApart := by
  induction h with
  | all => exact List.pairwise_singleton _ _
  | @fields entries hk _ _ ih =>
    by_cases hne : entries = []
    · subst hne
      exact List.pairwise_singleton _ _
    · rw [rows_fields hne]
      exact pairwise_entryRows hk ih

end Rows

section Groups

variable {own : List (String × Selector)} {name : String}

theorem merge_nest_new (h : name ∉ own.map Prod.fst) (row : List String) :
    (fields own).merge (nest all (name :: row)) = fields (own ++ [(name, nest all row)]) :=
  merge_single_new h (nest all row)

theorem merge_nest_last (h : name ∉ own.map Prod.fst) (s : Selector) (row : List String) :
    (fields (own ++ [(name, s)])).merge (nest all (name :: row)) =
      fields (own ++ [(name, s.merge (nest all row))]) := by
  have hsingle := merge_single (own ++ [(name, s)]) name (nest all row)
  rw [alter_append _ h, alter, if_pos rfl] at hsingle
  exact hsingle

theorem addRows_last (h : name ∉ own.map Prod.fst) (s : Selector) (rows : List (List String)) :
    (fields (own ++ [(name, s)])).addRows (rows.map (name :: ·)) =
      fields (own ++ [(name, s.addRows rows)]) := by
  induction rows generalizing s with
  | nil => rfl
  | cons row rows ih =>
    rw [List.map_cons, addRows, List.foldl_cons, merge_nest_last h]
    exact ih (s.merge (nest all row))

theorem addRows_new (h : name ∉ own.map Prod.fst) (row : List String)
    (rows : List (List String)) :
    (fields own).addRows ((row :: rows).map (name :: ·)) =
      fields (own ++ [(name, (nest all row).addRows rows)]) := by
  rw [List.map_cons, addRows, List.foldl_cons, merge_nest_new h]
  exact addRows_last h (nest all row) rows

end Groups

def Rebuilds (s : Selector) : Prop :=
  ∃ row rows, s.rows = row :: rows ∧ (nest all row).addRows rows = s.filled

theorem addRows_entryRows {own entries : List (String × Selector)}
    (hk : ((own ++ entries).map Prod.fst).Nodup) (hs : ∀ e ∈ entries, e.2.Rebuilds) :
    (fields own).addRows (entryRows entries) = fields (own ++ filledEntries entries) := by
  induction entries generalizing own with
  | nil => rw [filledEntries, List.append_nil]; rfl
  | cons e entries ih =>
    obtain ⟨name, s⟩ := e
    obtain ⟨⟨row, rows, hrows, hfilled⟩, hs⟩ := List.forall_mem_cons.mp hs
    have hnew : name ∉ own.map Prod.fst := Entries.not_mem_of_nodup_append hk
    have hk' : ((own ++ [(name, s.filled)] ++ entries).map Prod.fst).Nodup := by
      simpa using hk
    rw [entryRows, addRows, List.foldl_append]
    have hgroup := addRows_new hnew row rows
    rw [← hrows, hfilled, addRows] at hgroup
    rw [hgroup, filledEntries]
    simpa [addRows] using ih hk' hs

theorem Normal.rebuilds {s : Selector} (h : s.Normal) : s.Rebuilds := by
  induction h with
  | all => exact ⟨[], [], rfl, rfl⟩
  | @fields entries hk _ _ ih =>
    cases entries with
    | nil => exact ⟨[], [], rfl, rfl⟩
    | cons e entries =>
      have hall := @addRows_entryRows [] _ hk ih
      obtain ⟨row, rows, hrows, -⟩ := ih e List.mem_cons_self
      refine ⟨e.1 :: row, rows.map (e.1 :: ·) ++ entryRows entries, ?_, ?_⟩
      · rw [Selector.rows, entryRows, hrows]
        rfl
      · rw [filled, ← List.nil_append (filledEntries _), ← hall, entryRows, hrows]
        rfl

theorem addNames_eq_ok {ps : List String}
    (h : ∀ row ∈ Path.rows ps, "" ∉ row) (s : Selector) :
    addNames s ps = .ok (s.addRows (Path.rows ps)) := by
  induction ps generalizing s with
  | nil => rfl
  | cons p ps ih =>
    obtain ⟨hp, hps⟩ := List.forall_mem_cons.mp h
    have hpath : ofPath p all = .ok (nest all (Path.ofString p).names) := by
      rw [ofPath, if_neg fun hc => hp (List.contains_iff_mem.mp hc)]
    rw [addNames, hpath]
    exact ih hps _

/-- The paths of a selection are apart from each other, and the names of these paths select the same
again, in the same order, but that an attribute selected without its parts comes back whole. -/
theorem ofNames_toProjection {entries : List (String × Selector)} (h : Normal (fields entries)) :
    ∃ ps, (fields entries).toProjection = .paths ps ∧ ps.Pairwise Path.Apart ∧
      ofNames ps = .ok (fields (filledEntries entries)) := by
  have hrows : Path.rows (entryPaths "" entries) = entryRows entries := by
    rw [rows_entryPaths "" entries h]
    simp [namesAbove]
  cases h with
  | fields hk hn hs =>
    have hapart : (Path.rows (entryPaths "" entries)).Pairwise RowsApart :=
      hrows ▸ pairwise_entryRows hk fun e he => (hs e he).pairwise_rows
    have hnames : ∀ row ∈ Path.rows (entryPaths "" entries), "" ∉ row := by
      rw [hrows]
      intro row hrow hm
      exact (isName_of_mem_entryRows hn (fun e he => (hs e he).isName_of_mem_rows) row hrow "" hm).1
        rfl
    have hbuilt := @addRows_entryRows [] _ hk fun e he => (hs e he).rebuilds
    refine ⟨_, rfl, (List.pairwise_map.mp hapart).imp Path.apart_iff.mpr, ?_⟩
    rw [ofNames, addNames_eq_ok hnames, hrows, hbuilt, List.nil_append]

/-- Two paths share their beginning, one selection is empty below another, and one name goes on
from another one. -/
theorem ofNames_toProjection_film :
    let entries : List (String × Selector) := [("director", .fields [("name", .all),
      ("home", .fields [("city", .fields []), ("street", .all)])]), ("cast", .fields []),
      ("directors", .all)]
    let ps := ["director.name", "director.home.city", "director.home.street", "cast", "directors"]
    Normal (fields entries) ∧ (fields entries).toProjection = .paths ps ∧
      ps.Pairwise Path.Apart ∧
      ofNames ps = .ok (.fields [("director", .fields [("name", .all),
        ("home", .fields [("city", .all), ("street", .all)])]), ("cast", .all),
        ("directors", .all)]) := by
  intro entries ps
  have hhome : Normal (.fields [("city", .fields []), ("street", .all)]) :=
    normal_cons_iff.mpr ⟨by decide, by decide, normal_fields_nil,
      normal_cons_iff.mpr ⟨by decide, by decide, .all, normal_fields_nil⟩⟩
  have hdirector : Normal (.fields [("name", .all),
      ("home", .fields [("city", .fields []), ("street", .all)])]) :=
    normal_cons_iff.mpr ⟨by decide, by decide, .all,
      normal_cons_iff.mpr ⟨by decide, by decide, hhome, normal_fields_nil⟩⟩
  have h : Normal (fields entries) :=
    normal_cons_iff.mpr ⟨by decide, by decide, hdirector,
      normal_cons_iff.mpr ⟨by decide, by decide, normal_fields_nil,
        normal_cons_iff.mpr ⟨by decide, by decide, .all, normal_fields_nil⟩⟩⟩
  have hpaths : (fields entries).toProjection = .paths ps := rfl
  obtain ⟨qs, hqs, hapart, hbuilt⟩ := ofNames_toProjection h
  obtain rfl : ps = qs := Projection.paths.inj (hpaths.symm.trans hqs)
  exact ⟨h, hpaths, hapart, hbuilt⟩

end RecordStore.Selector
