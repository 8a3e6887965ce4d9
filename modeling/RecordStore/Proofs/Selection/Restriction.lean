import RecordStore.Proofs.Value.Walk
import RecordStore.Selection.Projection

namespace RecordStore

def tails (name : String) (rows : List (List String)) : List (List String) :=
  rows.filterMap fun
    | [] => none
    | first :: rest => if first = name then some rest else none

theorem mem_tails {name : String} {rows : List (List String)} {row : List String} :
    row ∈ tails name rows ↔ name :: row ∈ rows := by
  unfold tails
  rw [List.mem_filterMap]
  constructor
  · rintro ⟨_ | ⟨first, rest⟩, hm, h⟩
    · cases h
    · by_cases hf : first = name
      · simp only [hf, if_true, Option.some.injEq] at h
        rwa [← hf, ← h]
      · simp [hf] at h
  · exact fun hm => ⟨_, hm, by simp⟩

@[simp] theorem tails_append_self (name : String) (rest : List String) (rows : List (List String)) :
    tails name (rows ++ [name :: rest]) = tails name rows ++ [rest] := by
  simp [tails]

theorem tails_append_of_ne {name other : String} (h : other ≠ name) (rest : List String)
    (rows : List (List String)) : tails other (rows ++ [name :: rest]) = tails other rows := by
  simp [tails, Ne.symm h]

/-- What rows of names leave of a value: nothing if there are none, all of it if one of them ends
here, and otherwise the attributes that some row goes on with. An array keeps its elements, and
those that are documents are restricted in turn. -/
inductive Restricts : List (List String) → Value → Option Value → Prop
  | none (v : Value) : Restricts [] v none
  | whole {rows : List (List String)} (v : Value) (h : [] ∈ rows) : Restricts rows v (some v)
  | plain {rows : List (List String)} {v : Value} (hne : rows ≠ []) (h : [] ∉ rows)
      (hv : v.IsPlain) : Restricts rows v .none
  | document {rows : List (List String)} {d e : Document} (hne : rows ≠ []) (h : [] ∉ rows)
      (hn : ∀ name, d.get? name = .none → e.get? name = .none)
      (hs : ∀ name v, d.get? name = some v → Restricts (tails name rows) v (e.get? name)) :
      Restricts rows (.document d) (some (.document e))
  | array {rows : List (List String)} {items kept : List Value} (hne : rows ≠ []) (h : [] ∉ rows)
      (hl : kept.length = items.length)
      (hd : ∀ (i : Nat) d v, items[i]? = some (.document d) → kept[i]? = some v →
        Restricts rows (.document d) (some v))
      (ho : ∀ (i : Nat) v w, items[i]? = some v → (∀ d, v ≠ .document d) → kept[i]? = some w →
        w = v) :
      Restricts rows (.array items) (some (.array kept))

structure Document.RestrictsTo (rows : List (List String)) (d e : Document) : Prop where
  absent : ∀ name, d.get? name = none → e.get? name = none
  present : ∀ name v, d.get? name = some v → Restricts (tails name rows) v (e.get? name)

namespace Document

def elementsOf (count : Nat) : Option Value → List Value
  | some (.array items) =>
    if items.length = count then items else List.replicate count (.document [])
  | _ => List.replicate count (.document [])

def copyItem (next : String) (rest : List String) : Value → Value → Value
  | .document sub, .document target => .document (copyAt sub target next rest)
  | v, _ => v

theorem copyAt_document {src : Document} {name : String} {sub : Document}
    (h : get? src name = some (.document sub)) (dst : Document) (next : String)
    (rest : List String) : copyAt src dst name (next :: rest) =
      insert dst name (.document (copyAt sub (attributesOf (get? dst name)) next rest)) := by
  simp only [copyAt, h]
  rfl

theorem copyAt_array {src : Document} {name : String} {items : List Value}
    (h : get? src name = some (.array items)) (dst : Document) (next : String)
    (rest : List String) : copyAt src dst name (next :: rest) =
      insert dst name (.array (List.zipWith (copyItem next rest) items
        (elementsOf items.length (get? dst name)))) := by
  simp only [copyAt, h]
  rfl

theorem copyAt_plain {src : Document} {name : String} {v : Value} (h : get? src name = some v)
    (hv : v.IsPlain) (dst : Document) (next : String) (rest : List String) :
    copyAt src dst name (next :: rest) = dst := by
  unfold copyAt
  split
  · exact absurd (Option.some.inj (h.symm.trans ‹_›)) (hv.1 _)
  · exact absurd (Option.some.inj (h.symm.trans ‹_›)) (hv.2 _)
  · rfl

theorem copyAt_absent {src : Document} {name : String} (h : get? src name = none) (dst : Document)
    (rest : List String) : copyAt src dst name rest = dst := by
  cases rest <;> simp [copyAt, h]

theorem copyAt_eq_or (src dst : Document) (name : String) (rest : List String) :
    copyAt src dst name rest = dst ∨ ∃ v, copyAt src dst name rest = insert dst name v := by
  cases hs : get? src name with
  | none => exact .inl (copyAt_absent hs dst rest)
  | some v =>
    cases rest with
    | nil =>
      refine .inr ⟨v, ?_⟩
      simp only [copyAt, hs]
    | cons next rest =>
      obtain ⟨sub, rfl⟩ | ⟨items, rfl⟩ | hv := v.isPlain_or
      · exact .inr ⟨_, copyAt_document hs dst next rest⟩
      · exact .inr ⟨_, copyAt_array hs dst next rest⟩
      · exact .inl (copyAt_plain hs hv dst next rest)

theorem get?_copyAt_of_ne {name other : String} (h : other ≠ name) (src dst : Document)
    (rest : List String) : get? (copyAt src dst name rest) other = get? dst other := by
  obtain hsame | ⟨v, hv⟩ := copyAt_eq_or src dst name rest
  · rw [hsame]
  · rw [hv, get?_insert_of_ne dst v h]

theorem nodup_keys_copyAt {dst : Document} (h : dst.keys.Nodup) (src : Document) (name : String)
    (rest : List String) : (copyAt src dst name rest).keys.Nodup := by
  obtain hsame | ⟨v, hv⟩ := copyAt_eq_or src dst name rest
  · rwa [hsame]
  · rw [hv]
    exact nodup_keys_insert name v h

theorem copyAt_of_get?_eq {src dst : Document} {name : String} (h : get? dst name = get? src name)
    (rest : List String) : copyAt src dst name rest = dst := by
  induction rest generalizing src dst name with
  | nil =>
    cases hs : get? src name with
    | none => exact copyAt_absent hs dst []
    | some v => simp only [copyAt, hs, insert_of_get? (h.trans hs)]
  | cons next rest ih =>
    cases hs : get? src name with
    | none => exact copyAt_absent hs dst _
    | some v =>
      rw [hs] at h
      obtain ⟨sub, rfl⟩ | ⟨items, rfl⟩ | hv := v.isPlain_or
      · rw [copyAt_document hs, h, attributesOf, ih rfl, insert_of_get? h]
      · have hitem : (fun v => copyItem next rest v v) = id := by
          funext v
          cases v with
          | document sub => simp only [copyItem, ih, id]
          | _ => rfl
        have hitems : List.zipWith (copyItem next rest) items items = items := by
          rw [List.zipWith_self, hitem, List.map_id]
        rw [copyAt_array hs, h, elementsOf, if_pos rfl, hitems, insert_of_get? h]
      · exact copyAt_plain hs hv dst next rest

end Document

theorem Document.restrictsTo_empty (rows : List (List String)) :
    Document.RestrictsTo rows [] [] := ⟨fun _ _ => rfl, fun _ _ h => nomatch h⟩

theorem Restricts.eq_some {rows : List (List String)} {v : Value} {r : Option Value}
    (h : Restricts rows v r) (hm : [] ∈ rows) : r = some v := by
  cases h with
  | none => cases hm
  | whole => rfl
  | plain _ h | document _ h | array _ h => exact absurd hm h

theorem Restricts.eq_none {rows : List (List String)} {v : Value} {r : Option Value}
    (h : Restricts rows v r) (hm : [] ∉ rows) (hv : v.IsPlain) : r = .none := by
  cases h with
  | none => rfl
  | whole _ h => exact absurd h hm
  | plain => rfl
  | document => exact absurd rfl (hv.1 _)
  | array => exact absurd rfl (hv.2 _)

theorem Restricts.eq_none_of_nil {v : Value} {r : Option Value} (h : Restricts [] v r) :
    r = .none := by
  cases h with
  | none => rfl
  | whole _ h => cases h
  | plain hne | document hne | array hne => exact absurd rfl hne

theorem Restricts.alike {rows rows' : List (List String)} {v : Value} {a b : Option Value}
    (ha : Restricts rows v a) (hb : Restricts rows' v b) (hr : ∀ row, row ∈ rows ↔ row ∈ rows') :
    Option.Rel Value.Alike a b := by
  -- the rows being the same, both derivations end in the same rule
  induction ha generalizing rows' b with
  | none v =>
    obtain rfl : rows' = [] := List.eq_nil_iff_forall_not_mem.mpr fun row hm =>
      absurd ((hr row).mpr hm) List.not_mem_nil
    rw [hb.eq_none_of_nil]
    exact .none
  | whole v h =>
    rw [hb.eq_some ((hr []).mp h)]
    exact .some (.refl v)
  | plain _ h hv =>
    rw [hb.eq_none (fun hm => h ((hr []).mpr hm)) hv]
    exact .none
  | @document rows d e hne h hn _ ih =>
    obtain ⟨row, hrow⟩ := List.exists_mem_of_ne_nil rows hne
    have hempty : rows' ≠ [] := List.ne_nil_of_mem ((hr row).mp hrow)
    cases hb with
    | none => exact absurd rfl hempty
    | whole _ h' => exact absurd ((hr []).mpr h') h
    | plain _ _ hv => exact absurd rfl (hv.1 d)
    | document _ _ hn' hs' =>
      refine .some (Document.alike_of_rel fun name => ?_)
      cases hd : d.get? name with
      | none =>
        rw [hn name hd, hn' name hd]
        exact .none
      | some v =>
        refine ih name v hd (hs' name v hd) fun row => ?_
        rw [mem_tails, mem_tails, hr]
  | @array rows items kept hne h hl _ ho ih =>
    obtain ⟨row, hrow⟩ := List.exists_mem_of_ne_nil rows hne
    have hempty : rows' ≠ [] := List.ne_nil_of_mem ((hr row).mp hrow)
    cases hb with
    | none => exact absurd rfl hempty
    | whole _ h' => exact absurd ((hr []).mpr h') h
    | plain _ _ hv => exact absurd rfl (hv.2 items)
    | @array _ _ kept' _ _ hl' hd' ho' =>
      refine .some (.array (hl.trans hl'.symm) fun i x y hx hy => ?_)
      have hi : i < items.length := hl ▸ (List.getElem?_eq_some_iff.mp hx).1
      obtain ⟨item, hitem⟩ : ∃ item, items[i]? = some item := ⟨_, List.getElem?_eq_getElem hi⟩
      by_cases hdoc : ∃ d, item = .document d
      · obtain ⟨d, rfl⟩ := hdoc
        cases ih i d x hitem hx (hd' i d y hitem hy) hr with
        | some halike => exact halike
      · have hplain : ∀ d, item ≠ .document d := fun d hd => hdoc ⟨d, hd⟩
        rw [ho i item x hitem hplain hx, ho' i item y hitem hplain hy]
        exact .refl item

theorem Restricts.attributesOf {rows : List (List String)} {v : Value} {r : Option Value}
    (h : Restricts rows v r) (hm : [] ∉ rows) :
    Document.RestrictsTo rows (Document.attributesOf (some v)) (Document.attributesOf r) := by
  cases h with
  | none => exact ⟨fun _ _ => rfl, fun _ v _ => Restricts.none v⟩
  | whole _ h => exact absurd h hm
  | plain _ _ hv =>
    obtain ⟨d, hd⟩ | ⟨hnil, -⟩ := Document.document_or (some v)
    · exact absurd (Option.some.inj hd) (hv.1 d)
    · rw [hnil]
      exact Document.restrictsTo_empty rows
  | document _ _ hn hs => exact ⟨hn, hs⟩
  | array => exact Document.restrictsTo_empty rows

theorem Restricts.elementsOf {rows : List (List String)} {items : List Value} {r : Option Value}
    (h : Restricts rows (.array items) r) (hm : [] ∉ rows) :
    (Document.elementsOf items.length r).length = items.length ∧
      ∀ (i : Nat) d v, items[i]? = some (.document d) →
        (Document.elementsOf items.length r)[i]? = some v →
        ∃ e, v = .document e ∧ Document.RestrictsTo rows d e := by
  cases h with
  | none =>
    refine ⟨by simp [Document.elementsOf], fun i d v _ hv => ?_⟩
    obtain ⟨_, rfl⟩ := List.mem_replicate.mp (List.mem_of_getElem? hv)
    exact ⟨[], rfl, fun _ _ => rfl, fun _ v _ => Restricts.none v⟩
  | whole _ h => exact absurd h hm
  | plain _ _ hv => exact absurd rfl (hv.2 items)
  | array hne _ hl hd _ =>
    rw [Document.elementsOf, if_pos hl]
    refine ⟨hl, fun i d v hi hv => ?_⟩
    cases hd i d v hi hv with
    | whole _ h => exact absurd h hm
    | document _ _ hn hs => exact ⟨_, rfl, hn, hs⟩

namespace Document

theorem RestrictsTo.copyAt_of_present {rows : List (List String)} {d e : Document} {name : String}
    {rest : List String} (h : RestrictsTo rows d e)
    (hs : ∀ v, get? d name = some v →
      Restricts (tails name rows ++ [rest]) v (get? (copyAt d e name rest) name)) :
    RestrictsTo (rows ++ [name :: rest]) d (copyAt d e name rest) := by
  constructor
  · intro other ho
    by_cases hn : other = name
    · subst hn
      rw [copyAt_absent ho]
      exact h.absent other ho
    · rw [get?_copyAt_of_ne hn]
      exact h.absent other ho
  · intro other v ho
    by_cases hn : other = name
    · subst hn
      rw [tails_append_self]
      exact hs v ho
    · rw [tails_append_of_ne hn, get?_copyAt_of_ne hn]
      exact h.present other v ho

/-- One more path copied is one more row. -/
theorem RestrictsTo.copyAt {rows : List (List String)} {d e : Document} {name : String}
    {rest : List String} (h : RestrictsTo rows d e) :
    RestrictsTo (rows ++ [name :: rest]) d (copyAt d e name rest) := by
  induction rest generalizing rows d e name with
  | nil =>
    refine h.copyAt_of_present fun v hv => ?_
    simp only [Document.copyAt, hv, get?_insert_self]
    exact Restricts.whole v (by simp)
  | cons next rest ih =>
    refine h.copyAt_of_present fun v hv => ?_
    have hne : tails name rows ++ [next :: rest] ≠ [] := by simp
    by_cases hm : [] ∈ tails name rows
    · -- the attribute has been copied whole, and no copy changes it any more
      have he : get? e name = some v := (h.present name v hv).eq_some hm
      rw [copyAt_of_get?_eq (he.trans hv.symm), he]
      exact Restricts.whole v (by simp [hm])
    · have hmem : [] ∉ tails name rows ++ [next :: rest] := by simp [hm]
      have hr := h.present name v hv
      obtain ⟨sub, rfl⟩ | ⟨items, rfl⟩ | hp := v.isPlain_or
      · rw [copyAt_document hv, get?_insert_self]
        obtain ⟨hn, hs⟩ := @ih _ _ _ next (hr.attributesOf hm)
        exact Restricts.document hne hmem hn hs
      · rw [copyAt_array hv, get?_insert_self]
        obtain ⟨hl, hd⟩ := hr.elementsOf hm
        refine Restricts.array hne hmem (by simp [hl]) ?_ ?_
        · intro i sub w hi hw
          obtain ⟨v, target, hv', ht, rfl⟩ := List.getElem?_zipWith_eq_some.mp hw
          obtain rfl : v = .document sub := Option.some.inj (hv'.symm.trans hi)
          obtain ⟨t, rfl, hrt⟩ := hd i sub target hi ht
          obtain ⟨hn, hs⟩ := @ih _ _ _ next hrt
          exact Restricts.document hne hmem hn hs
        · intro i v w hi hnd hw
          obtain ⟨v', target, hv', _, rfl⟩ := List.getElem?_zipWith_eq_some.mp hw
          obtain rfl : v' = v := Option.some.inj (hv'.symm.trans hi)
          cases v' with
          | document sub => exact absurd rfl (hnd sub)
          | _ => rfl
      · rw [copyAt_plain hv hp, hr.eq_none hm hp]
        exact Restricts.plain hne hmem hp

theorem restrictsTo_nil (d : Document) : RestrictsTo [] d [] :=
  ⟨fun _ _ => rfl, fun _ v _ => Restricts.none v⟩

theorem RestrictsTo.foldl_copyPath {rows : List (List String)} {d e : Document}
    (h : RestrictsTo rows d e) (ps : List Path) :
    RestrictsTo (rows ++ ps.map Path.names) d (ps.foldl (fun out p => d.copyPath out p) e) := by
  induction ps generalizing rows e with
  | nil => simpa using h
  | cons p ps ih => simpa [copyPath, Path.names] using ih h.copyAt

end Document

theorem Projection.nodup_keys_apply (p : Projection) {d : Document} (h : d.keys.Nodup) :
    (p.apply d).keys.Nodup := by
  cases p with
  | unrestricted => exact h
  | paths ps =>
    have hfold : ∀ out : Document, out.keys.Nodup →
        (ps.foldl (fun out q => d.copyPath out (Path.ofString q)) out).keys.Nodup := by
      induction ps with
      | nil => exact fun out hout => hout
      | cons q ps ih => exact fun out hout => ih _ (Document.nodup_keys_copyAt hout d _ _)
    exact hfold [] List.nodup_nil

/-- A projection to paths leaves what the rows of the paths leave. -/
theorem Projection.restrictsTo_apply (ps : List String) (d : Document) :
    Document.RestrictsTo (Path.rows ps) d ((paths ps).apply d) := by
  have h := (Document.restrictsTo_nil d).foldl_copyPath (ps.map Path.ofString)
  rw [List.nil_append, List.map_map, List.foldl_map] at h
  exact h

theorem Projection.get?_apply_of_absent (p : Projection) {d : Document} {name : String}
    (h : d.get? name = none) : (p.apply d).get? name = none := by
  cases p with
  | unrestricted => exact h
  | paths ps => exact (restrictsTo_apply ps d).absent name h

end RecordStore
