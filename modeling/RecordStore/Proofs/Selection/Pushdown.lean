import RecordStore.Proofs.Selection.Restriction
import RecordStore.Proofs.Selection.Rows

namespace RecordStore

theorem Projection.mem_foldl_addPath {ps extra : List String} {p : String} :
    p ∈ extra.foldl addPath ps ↔ p ∈ ps ∨ p ∈ extra := by
  induction extra generalizing ps with
  | nil => simp
  | cons q extra ih =>
    rw [List.foldl_cons, ih, List.mem_cons, addPath]
    split
    · rename_i hq
      have hq := List.contains_iff_mem.mp hq
      constructor
      · rintro (hp | hp)
        · exact .inl hp
        · exact .inr (.inr hp)
      · rintro (hp | rfl | hp)
        · exact .inl hp
        · exact .inl hq
        · exact .inr hp
    · rw [List.mem_append, List.mem_singleton, or_assoc]

namespace Selector

/-- Whether no attribute is selected inside. -/
def isLeaf : Selector → Bool
  | all | nothing | fields [] => true
  | fields (_ :: _) => false

mutual

/-- Where the selection goes on inside an attribute there is a document, an array or nothing. -/
def fits (s : Selector) : Value → Bool
  | .document d => s.isLeaf || entriesFit s d
  | .array items => s.isLeaf || itemsFit s items
  | _ => s.isLeaf

def itemsFit (s : Selector) : List Value → Bool
  | [] => true
  | .document d :: items => entriesFit s d && itemsFit s items
  | _ :: items => itemsFit s items

def entriesFit (s : Selector) : List (String × Value) → Bool
  | [] => true
  | (name, v) :: entries => fits (s.get name) v && entriesFit s entries

end

theorem fits_of_isLeaf {s : Selector} (h : s.isLeaf) (v : Value) : s.fits v := by
  cases v <;> simp [fits, h]

theorem isLeaf_get {s : Selector} (h : s.isLeaf) (name : String) : (s.get name).isLeaf := by
  cases s with
  | all | nothing => rfl
  | fields entries =>
    cases entries with
    | nil => rfl
    | cons => cases h

theorem fits_get {s : Selector} {d : Document} (h : s.fits (.document d)) {name : String}
    {v : Value} (hv : d.get? name = some v) : (s.get name).fits v := by
  rw [fits, Bool.or_eq_true] at h
  obtain h | h := h
  · exact fits_of_isLeaf (isLeaf_get h name) v
  induction d with
  | nil => cases hv
  | cons e d ih =>
    obtain ⟨k, w⟩ := e
    rw [entriesFit, Bool.and_eq_true] at h
    rw [Document.get?_cons] at hv
    by_cases hk : name = k
    · rw [if_pos hk] at hv
      obtain rfl := Option.some.inj hv
      rw [hk]
      exact h.1
    · rw [if_neg hk] at hv
      exact ih hv h.2

theorem fits_item {s : Selector} {items : List Value} (h : s.fits (.array items)) {d : Document}
    (hd : .document d ∈ items) : s.fits (.document d) := by
  rw [fits, Bool.or_eq_true] at h
  obtain h | h := h
  · exact fits_of_isLeaf h _
  induction items with
  | nil => cases hd
  | cons v items ih =>
    obtain rfl | hd := List.mem_cons.mp hd
    · rw [itemsFit, Bool.and_eq_true] at h
      simp [fits, h.1]
    · refine ih hd ?_
      cases v with
      | document =>
        rw [itemsFit, Bool.and_eq_true] at h
        exact h.2
      | _ => simpa only [itemsFit] using h

theorem not_fits_plain {e : String × Selector} {entries : List (String × Selector)} {v : Value}
    (hv : v.IsPlain) : ¬(fields (e :: entries)).fits v := by
  cases v with
  | document d => exact absurd rfl (hv.1 d)
  | array items => exact absurd rfl (hv.2 items)
  | _ => simp [fits, isLeaf]

theorem isNothing_iff {s : Selector} : s.isNothing = true ↔ s = nothing := by
  cases s <;> simp [isNothing]

theorem pickItems_eq_map (s : Selector) (items : List Value) :
    s.pickItems items = items.map s.pickValue := by
  induction items with
  | nil => rfl
  | cons v items ih => rw [pickItems, ih, List.map_cons]

theorem pickValue_document (s : Selector) (d : Document) :
    s.pickValue (.document d) = .document (d.pick s []) := rfl

theorem pickValue_all (v : Value) : all.pickValue v = v := by
  cases v <;> rfl

theorem pickValue_of_isAll {s : Selector} (h : s.isAll = true) (v : Value) :
    s.pickValue v = v := by
  cases s with
  | all => exact pickValue_all v
  | _ => cases h

theorem pickValue_of_isPlain {v : Value} (hv : v.IsPlain) (s : Selector) : s.pickValue v = v := by
  cases v with
  | document d => exact absurd rfl (hv.1 d)
  | array items => exact absurd rfl (hv.2 items)
  | _ => rfl

theorem pickValue_array (s : Selector) (items : List Value) :
    s.pickValue (.array items) = .array (items.map s.pickValue) := by
  rw [pickValue]
  cases hall : s.isAll with
  | true =>
    have hid : s.pickValue = id := funext (pickValue_of_isAll hall)
    rw [if_pos rfl, hid, List.map_id]
  | false => rw [if_neg Bool.false_ne_true, pickItems_eq_map]

theorem get?_pickEntries (s : Selector) (keep : List String) (d : Document) (name : String) :
    Document.get? (s.pickEntries keep d) name =
      if (s.get name).isNothing then if name ∈ keep then d.get? name else none
      else (d.get? name).map (s.get name).pickValue := by
  induction d with
  | nil => simp [pickEntries]
  | cons e d ih =>
    obtain ⟨k, v⟩ := e
    rw [pickEntries, Document.get?_cons]
    by_cases hk : name = k
    · subst hk
      cases hn : (s.get name).isNothing with
      | true =>
        by_cases hm : name ∈ keep
        · simp [hm, Document.get?_cons]
        · simp [hn, hm, ih]
      | false => simp [Document.get?_cons]
    · simp only [if_neg hk]
      rw [← ih]
      split
      · rw [Document.get?_cons, if_neg hk]
      · split
        · rw [Document.get?_cons, if_neg hk]
        · rfl

theorem get?_pick (s : Selector) (keep : List String) (d : Document) (name : String) :
    (d.pick s keep).get? name =
      if (s.get name).isNothing then if name ∈ keep then d.get? name else none
      else (d.get? name).map (s.get name).pickValue := by
  rw [Document.pick]
  cases s with
  | all =>
    have hall : (all.pickValue : Value → Value) = id := funext pickValue_all
    change d.get? name = (d.get? name).map all.pickValue
    rw [hall, Option.map_id, id]
  | _ => exact get?_pickEntries _ keep d name

theorem alike_pickEntries {s : Selector} {keep : List String} {d e : Document}
    (hn : ∀ name, d.get? name = none → e.get? name = none)
    (hs : ∀ name v, d.get? name = some v → s.get name ≠ nothing →
      ∃ w, e.get? name = some w ∧
        Value.Alike ((s.get name).pickValue w) ((s.get name).pickValue v))
    (hk : ∀ name v, d.get? name = some v → s.get name = nothing → name ∈ keep →
      e.get? name = some v) :
    Document.Alike (s.pickEntries keep e) (s.pickEntries keep d) := by
  refine Document.alike_of_rel fun name => ?_
  rw [get?_pickEntries, get?_pickEntries]
  cases hd : d.get? name with
  | none =>
    rw [hn name hd]
    split
    · split <;> exact .none
    · exact .none
  | some v =>
    cases hsub : s.get name with
    | nothing =>
      by_cases hm : name ∈ keep
      · simp only [isNothing, hk name v hd hsub hm, hm, if_true]
        exact .some (.refl v)
      · simp only [isNothing, hm, if_true, if_false]
        exact .none
    | _ =>
      obtain ⟨w, he, hw⟩ := hs name v hd (by simp [hsub])
      rw [hsub] at hw
      rw [he]
      exact .some hw

theorem pickValue_alike {v w : Value} (h : Value.Alike v w) (s : Selector) :
    Value.Alike (s.pickValue v) (s.pickValue w) := by
  induction h generalizing s with
  | refl v => exact .refl _
  | array hl h ih =>
    rw [pickValue_array, pickValue_array]
    refine .array (by simp [hl]) fun i v w hv hw => ?_
    obtain ⟨x, hx, rfl⟩ := Option.map_eq_some_iff.mp ((List.getElem?_map ..).symm.trans hv)
    obtain ⟨y, hy, rfl⟩ := Option.map_eq_some_iff.mp ((List.getElem?_map ..).symm.trans hw)
    exact ih i x y hx hy s
  | @document d e hk h ih =>
    cases hall : s.isAll with
    | true =>
      rw [pickValue_of_isAll hall, pickValue_of_isAll hall]
      exact .document hk h
    | false =>
      rw [pickValue_document, pickValue_document, Document.pick, Document.pick, hall]
      refine alike_pickEntries (fun name => (hk name).mpr) (fun name w he _ => ?_)
        fun _ _ _ _ hkeep => nomatch hkeep
      cases hd : Document.get? d name with
      | none => exact absurd (he.symm.trans ((hk name).mp hd)) (by simp)
      | some v => exact ⟨v, rfl, ih name v w hd he (s.get name)⟩

theorem alike_pick {s : Selector} {keep : List String} {d e : Document}
    (h : ∀ name, name ∈ keep ∨ s.get name ≠ nothing →
      Option.Rel Value.Alike (e.get? name) (d.get? name)) :
    (e.pick s keep).Alike (d.pick s keep) := by
  refine Document.alike_of_rel fun name => ?_
  rw [get?_pick, get?_pick]
  cases hsub : s.get name with
  | nothing =>
    by_cases hm : name ∈ keep
    · simp only [isNothing, hm, if_true]
      exact h name (.inl hm)
    · simp only [isNothing, hm, if_true, if_false]
      exact .none
  | _ =>
    have hrel := h name (.inr (by simp [hsub]))
    simp only [isNothing, Bool.false_eq_true, if_false]
    generalize e.get? name = a at hrel ⊢
    generalize d.get? name = b at hrel ⊢
    cases hrel with
    | none => exact .none
    | some halike => exact .some (pickValue_alike halike _)

theorem Normal.eq_fields_cons {s : Selector} (h : s.Normal) (hm : [] ∉ s.rows) :
    ∃ e entries, s = .fields (e :: entries) := by
  cases h with
  | all => exact absurd (by simp [rows]) hm
  | @fields entries _ _ _ =>
    cases entries with
    | nil => exact absurd (by simp [rows]) hm
    | cons e entries => exact ⟨e, entries, rfl⟩

theorem alike_pickValue {rows : List (List String)} {v : Value} {r : Option Value}
    (h : Restricts rows v r) {s : Selector} (hs : s.Normal)
    (hr : ∀ row, row ∈ rows ↔ row ∈ s.rows) (hv : s.fits v) :
    ∃ w, r = some w ∧ Value.Alike (s.pickValue w) (s.pickValue v) := by
  induction h generalizing s with
  | none v =>
    -- only a selection of nothing has no rows
    have he : s.rows = [] := List.eq_nil_iff_forall_not_mem.mpr fun row hm =>
      absurd ((hr row).mpr hm) List.not_mem_nil
    exact absurd he hs.rows_ne_nil
  | whole v hm => exact ⟨v, rfl, .refl _⟩
  | plain _ hm hp =>
    obtain ⟨e, entries, rfl⟩ := hs.eq_fields_cons (fun h => hm ((hr []).mpr h))
    exact absurd hv (not_fits_plain hp)
  | document _ hm hn _ ih =>
    -- the rows below a name are those of the selection inside its attribute
    obtain ⟨e, entries, rfl⟩ := hs.eq_fields_cons (fun h => hm ((hr []).mpr h))
    refine ⟨_, rfl, ?_⟩
    rw [pickValue_document, pickValue_document]
    refine alike_pickEntries hn (fun name v hd hne => ?_) fun _ _ _ _ hk => nomatch hk
    refine ih name v hd ((hs.get name).resolve_left hne) (fun row => ?_) (fits_get hv hd)
    rw [mem_tails, hr, rows_fields (List.cons_ne_nil _ _), mem_entryRows hs]
  | @array rows items kept _ hm hl _ ho ih =>
    obtain ⟨e, entries, rfl⟩ := hs.eq_fields_cons (fun h => hm ((hr []).mpr h))
    refine ⟨_, rfl, ?_⟩
    rw [pickValue_array, pickValue_array]
    refine Value.Alike.array (by simp [hl]) fun i v w hi hj => ?_
    obtain ⟨kv, hkv, rfl⟩ := Option.map_eq_some_iff.mp ((List.getElem?_map ..).symm.trans hi)
    obtain ⟨iv, hiv, rfl⟩ := Option.map_eq_some_iff.mp ((List.getElem?_map ..).symm.trans hj)
    cases iv with
    | document d =>
      obtain ⟨w, hw, ha⟩ := ih i d kv hiv hkv hs hr (fits_item hv (List.mem_of_getElem? hiv))
      rwa [← Option.some.inj hw] at ha
    | _ =>
      rw [ho i _ kv hiv (fun _ h => (nomatch h)) hkv]
      exact .refl _

theorem mem_rows_toProjection {s : Selector} (h : s.Canonical) {ps : List String}
    (hp : s.toProjection = .paths ps) {name : String} {row : List String} :
    name :: row ∈ Path.rows ps ↔ row ∈ (s.get name).rows := by
  cases s with
  | all => cases hp
  | nothing =>
    cases hp
    simp [get, rows, Path.rows]
  | fields entries =>
    cases hp
    have hn : Normal (fields entries) := h.resolve_left (by simp)
    rw [rows_entryPaths "" entries hn, ← mem_entryRows hn]
    simp [namesAbove]

theorem mem_rows_withPaths {s : Selector} (h : s.Canonical) {ids : List String}
    (hids : ∀ name ∈ ids, Path.IsName name) {ps : List String} (hp : s.toProjection = .paths ps)
    {name : String} {row : List String} :
    name :: row ∈ Path.rows (ids.foldl Projection.addPath ps) ↔
      row ∈ (s.get name).rows ∨ row = [] ∧ name ∈ ids := by
  rw [← mem_rows_toProjection h hp, Path.mem_rows, Path.mem_rows]
  constructor
  · rintro ⟨p, hm, he⟩
    obtain hm | hm := Projection.mem_foldl_addPath.mp hm
    · exact .inl ⟨p, hm, he⟩
    · rw [Path.ofString_of_isName (hids p hm)] at he
      obtain ⟨rfl, rfl⟩ := List.cons.inj he
      exact .inr ⟨rfl, hm⟩
  · rintro (⟨p, hm, he⟩ | ⟨rfl, hm⟩)
    · exact ⟨p, Projection.mem_foldl_addPath.mpr (.inl hm), he⟩
    · refine ⟨name, Projection.mem_foldl_addPath.mpr (.inr hm), ?_⟩
      rw [Path.ofString_of_isName (hids name hm), Path.names]

/-- What the projection of a selection leaves of an attribute, is what the rows of the selection
inside it leave, or all of it if the attribute is asked for besides. -/
theorem restricts_withPaths {s : Selector} (h : s.Canonical) {ids : List String}
    (hids : ∀ name ∈ ids, Path.IsName name) {d : Document} {name : String} {v : Value}
    (hv : d.get? name = some v) :
    ∃ rows, (∀ row, row ∈ rows ↔ row ∈ (s.get name).rows ∨ row = [] ∧ name ∈ ids) ∧
      Restricts rows v (((s.toProjection.withPaths ids).apply d).get? name) := by
  cases hp : s.toProjection with
  | unrestricted =>
    obtain rfl : s = all := by cases s <;> first | rfl | cases hp
    refine ⟨[[]], fun row => ?_, ?_⟩
    · simp only [get, rows, List.mem_singleton]
      exact (or_iff_left_of_imp fun hrow => hrow.1).symm
    · rw [Projection.withPaths, Projection.apply, hv]
      exact .whole v List.mem_cons_self
  | paths ps =>
    refine ⟨tails name (Path.rows (ids.foldl Projection.addPath ps)), fun row => ?_, ?_⟩
    · rw [mem_tails, mem_rows_withPaths h hids hp]
    · exact (Projection.restrictsTo_apply (ids.foldl Projection.addPath ps) d).present name v hv

/-- Selecting from what the projection of a selection leaves of a record is selecting from the
record, whatever attributes are kept besides. -/
theorem alike_pick_projection {s : Selector} (hs : s.Canonical) {ids : List String}
    (hids : ∀ name ∈ ids, Path.IsName name) {d : Document} (hd : s.fits (.document d)) :
    Document.Alike (((s.toProjection.withPaths ids).apply d).pick s ids) (d.pick s ids) := by
  cases hp : s.toProjection with
  | unrestricted => exact .refl _
  | paths ps =>
    have hall : s.isAll = false := by cases s <;> first | rfl | cases hp
    have hr := Projection.restrictsTo_apply (ids.foldl Projection.addPath ps) d
    rw [Projection.withPaths, Document.pick, Document.pick, hall]
    refine alike_pickEntries hr.absent (fun name v hv hne => ?_) fun name v hv hn hm => ?_
    · have hsub : (s.get name).Normal := (hs.get name).resolve_left hne
      by_cases hm : [] ∈ tails name (Path.rows (ids.foldl Projection.addPath ps))
      · -- the attribute is also kept, and so was copied whole
        exact ⟨v, (hr.present name v hv).eq_some hm, .refl _⟩
      · refine alike_pickValue (hr.present name v hv) hsub (fun row => ?_) (fits_get hd hv)
        rw [mem_tails, mem_rows_withPaths hs hids hp] at hm ⊢
        exact or_iff_left fun h => hm (.inr ⟨rfl, h.2⟩)
    · refine (hr.present name v hv).eq_some ?_
      rw [mem_tails, mem_rows_withPaths hs hids hp]
      exact .inr ⟨rfl, hm⟩

/-- The attribute that is kept is selected inside as well, an array mixes documents with other
values, and one selection is empty. -/
theorem alike_pick_projection_mixed :
    let s : Selector := .fields [("id", .fields [("n", .all)]), ("cast", .fields [("by", .all)]),
      ("set", .fields [])]
    let d : Document := [("cast", .array [.document [("by", .int32 1), ("as", .int32 2)], .null,
      .array [.document [("as", .int32 3)]]]), ("set", .document [("x", .int32 4)]),
      ("id", .document [("m", .int32 5), ("n", .int32 6)]), ("year", .int32 7)]
    s.Canonical ∧ (∀ name ∈ ["id"], Path.IsName name) ∧ s.fits (.document d) ∧
      Document.Alike (((s.toProjection.withPaths ["id"]).apply d).pick s ["id"])
        (d.pick s ["id"]) ∧
      d.pick s ["id"] = [("cast", .array [.document [("by", .int32 1)], .null,
        .array [.document []]]), ("set", .document []), ("id", .document [("n", .int32 6)])] := by
  intro s d
  have hone : ∀ name, Path.IsName name → Normal (fields [(name, .all)]) := fun name h =>
    normal_cons_iff.mpr ⟨List.not_mem_nil, h, .all, normal_fields_nil⟩
  have hs : s.Canonical := by
    refine .inr (normal_cons_iff.mpr ⟨by decide, by decide, hone "n" (by decide), ?_⟩)
    refine normal_cons_iff.mpr ⟨by decide, by decide, hone "by" (by decide), ?_⟩
    exact normal_cons_iff.mpr ⟨by decide, by decide, normal_fields_nil, normal_fields_nil⟩
  have hids : ∀ name ∈ ["id"], Path.IsName name := by decide
  have hd : s.fits (.document d) := rfl
  exact ⟨hs, hids, hd, alike_pick_projection hs hids hd, rfl⟩

end Selector

end RecordStore
