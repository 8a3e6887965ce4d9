import RecordStore.Proofs.Selection.Flattened
import RecordStore.Proofs.Selection.Pushdown
import RecordStore.Proofs.Value.Equality

namespace RecordStore.Selector

/-- What is taken of a value that stands there whole: all of it where everything is selected, else
of a document the attributes that are selected and of an array every element. A value without
attributes is taken as it is. -/
inductive Picks : Selector → Value → Value → Prop
  | all (v : Value) : Picks all v v
  | plain (s : Selector) {v : Value} (hv : v.IsPlain) : Picks s v v
  | document {s : Selector} {d e : Document} (hs : s ≠ .all)
      (hk : ∀ name, e.get? name = none ↔ d.get? name = none ∨ s.get name = nothing)
      (h : ∀ name v w, d.get? name = some v → e.get? name = some w → Picks (s.get name) v w) :
      Picks s (.document d) (.document e)
  | array {s : Selector} {items picked : List Value} (hs : s ≠ .all)
      (hl : picked.length = items.length)
      (h : ∀ (i : Nat) v w, items[i]? = some v → picked[i]? = some w → Picks s v w) :
      Picks s (.array items) (.array picked)

/-- What is shown of an attribute of a record: nothing if it is not selected, and what is picked
of it where no selection goes on inside. Where one does, a value without attributes is left out,
and of an array the documents are shaped in turn. -/
inductive Shapes : Selector → Value → Option Value → Prop
  | nothing (v : Value) : Shapes nothing v none
  | whole {s : Selector} {v w : Value} (hs : s.isLeaf) (hne : s ≠ nothing) (h : s.Picks v w) :
      Shapes s v (some w)
  | plain {s : Selector} {v : Value} (hs : ¬s.isLeaf) (hv : v.IsPlain) : Shapes s v none
  | document {s : Selector} {d e : Document} (hs : ¬s.isLeaf)
      (hn : ∀ name, d.get? name = none → e.get? name = none)
      (h : ∀ name v, d.get? name = some v → Shapes (s.get name) v (e.get? name)) :
      Shapes s (.document d) (some (.document e))
  | array {s : Selector} {items shaped : List Value} (hs : ¬s.isLeaf)
      (hl : shaped.length = items.length)
      (hd : ∀ (i : Nat) d w, items[i]? = some (.document d) → shaped[i]? = some w →
        Shapes s (.document d) (some w))
      (ho : ∀ (i : Nat) v w, items[i]? = some v → (∀ d, v ≠ .document d) → shaped[i]? = some w →
        s.Picks v w) :
      Shapes s (.array items) (some (.array shaped))

theorem get?_pick_eq_none_iff {s : Selector} {d : Document} {name : String} :
    (d.pick s []).get? name = none ↔ d.get? name = none ∨ s.get name = nothing := by
  rw [get?_pick]
  cases hn : (s.get name).isNothing with
  | true => simp [isNothing_iff.mp hn]
  | false =>
    have hne : s.get name ≠ nothing := fun h => by simp [h, isNothing] at hn
    simp [hne]

theorem get?_pick_eq_some {s : Selector} {d : Document} {name : String} {v w : Value}
    (hv : d.get? name = some v) (hw : (d.pick s []).get? name = some w) :
    (s.get name).pickValue v = w := by
  have hne : ¬(s.get name).isNothing := fun hn => by
    rw [get?_pick_eq_none_iff.mpr (.inr (isNothing_iff.mp hn))] at hw
    cases hw
  rw [get?_pick, if_neg hne, hv] at hw
  exact Option.some.inj hw

theorem picks_pickValue (s : Selector) (v : Value) : s.Picks v (s.pickValue v) := by
  induction v using Value.parts_induction generalizing s with
  | leaf v hl =>
    have hv : v.IsPlain := ⟨hl.1, hl.2.2⟩
    rw [pickValue_of_isPlain hv]
    exact .plain s hv
  | inScope source scope => exact .plain s ⟨nofun, nofun⟩
  | inDocument d ih =>
    by_cases hs : s = all
    · rw [hs, pickValue_all]
      exact .all (.document d)
    · rw [pickValue_document]
      refine .document hs (fun name => get?_pick_eq_none_iff) fun name v w hv hw => ?_
      rw [← get?_pick_eq_some hv hw]
      exact ih (name, v) (Document.mem_of_get? hv) (s.get name)
  | inArray items ih =>
    by_cases hs : s = all
    · rw [hs, pickValue_all]
      exact .all (.array items)
    · rw [pickValue_array]
      refine .array hs (List.length_map _) fun i v w hv hw => ?_
      rw [List.getElem?_map, hv] at hw
      rw [← Option.some.inj hw]
      exact ih v (List.mem_of_getElem? hv) s

section Rows

variable {s : Selector} {rows : List (List String)}

theorem isLeaf_iff_nil_mem_rows (hne : s ≠ nothing) : s.isLeaf ↔ [] ∈ s.rows := by
  cases s with
  | all => simp [isLeaf, Selector.rows]
  | nothing => exact absurd rfl hne
  | fields entries =>
    cases entries with
    | nil => simp [isLeaf, Selector.rows]
    | cons e entries => simp [isLeaf, Selector.rows, mem_entryRows_iff]

theorem not_isLeaf_of_rows (hr : ∀ row, row ∈ rows ↔ row ∈ s.rows) (hne : rows ≠ [])
    (hm : [] ∉ rows) : ¬s.isLeaf := by
  obtain ⟨row, hrow⟩ := List.exists_mem_of_ne_nil rows hne
  have hs : s ≠ nothing := by
    rintro rfl
    exact nomatch (hr row).mp hrow
  rw [isLeaf_iff_nil_mem_rows hs, ← hr]
  exact hm

theorem cons_mem_rows_iff (hs : s.Canonical) (hleaf : ¬s.isLeaf) {name : String}
    {row : List String} : name :: row ∈ s.rows ↔ row ∈ (s.get name).rows := by
  cases s with
  | all | nothing => exact absurd rfl hleaf
  | fields entries =>
    cases entries with
    | nil => exact absurd rfl hleaf
    | cons e entries =>
      rw [rows_fields (List.cons_ne_nil _ _), mem_entryRows (hs.resolve_left nofun)]

end Rows

theorem shapes_get?_pick {s : Selector} {keep : List String} {e : Document} {name : String}
    (hm : name ∉ keep) {v : Value}
    (h : (s.get name).Shapes v ((e.get? name).map (s.get name).pickValue)) :
    (s.get name).Shapes v ((e.pick s keep).get? name) := by
  rw [get?_pick, if_neg hm]
  cases hn : (s.get name).isNothing with
  | true =>
    rw [isNothing_iff.mp hn]
    exact .nothing v
  | false => exact h

/-- Picking from what the rows of a selection leave of a value shapes the value. -/
theorem shapes_of_restricts {rows : List (List String)} {v : Value} {r : Option Value}
    (h : Restricts rows v r) {s : Selector} (hs : s.Canonical)
    (hr : ∀ row, row ∈ rows ↔ row ∈ s.rows) : s.Shapes v (r.map s.pickValue) := by
  induction h generalizing s with
  | none v =>
    -- only a selection of nothing has no rows
    have he : s.rows = [] := List.eq_nil_iff_forall_not_mem.mpr fun row hm =>
      absurd ((hr row).mpr hm) List.not_mem_nil
    obtain rfl := hs.resolve_right fun hs => hs.rows_ne_nil he
    exact .nothing v
  | whole v hm =>
    have hm := (hr []).mp hm
    have hne : s ≠ nothing := fun h => by simp [h, Selector.rows] at hm
    exact .whole ((isLeaf_iff_nil_mem_rows hne).mpr hm) hne (s.picks_pickValue v)
  | plain hne hm hv => exact .plain (not_isLeaf_of_rows hr hne hm) hv
  | @document rows d e hne hm hn _ ih =>
    have hleaf := not_isLeaf_of_rows hr hne hm
    rw [Option.map_some, pickValue_document]
    refine .document hleaf (fun name hd => get?_pick_eq_none_iff.mpr (.inl (hn name hd))) ?_
    intro name v hd
    refine shapes_get?_pick List.not_mem_nil (ih name v hd (hs.get name) fun row => ?_)
    rw [mem_tails, hr, cons_mem_rows_iff hs hleaf]
  | @array rows items kept hne hm hl _ ho ih =>
    have hleaf := not_isLeaf_of_rows hr hne hm
    rw [Option.map_some, pickValue_array]
    refine .array hleaf (by rw [List.length_map, hl]) (fun i d w hi hw => ?_)
      fun i v w hi hv hw => ?_
    · obtain ⟨x, hx, rfl⟩ := Option.map_eq_some_iff.mp ((List.getElem?_map ..).symm.trans hw)
      exact ih i d x hi hx hs hr
    · obtain ⟨x, hx, rfl⟩ := Option.map_eq_some_iff.mp ((List.getElem?_map ..).symm.trans hw)
      rw [ho i v x hi hv hx]
      exact s.picks_pickValue v

end RecordStore.Selector
