import RecordStore.Proofs.Patch.Settled
import RecordStore.Proofs.Patch.Sparse

namespace RecordStore

mutual

theorem Value.strip_of_settled (v : Value) (h : v.Settled) : v.strip = v := by
  cases v with
  | document d =>
    rw [Value.strip, stripEntries_of_settled d (Value.settled_document_iff.mp h)]
  | array items =>
    rw [Value.strip, stripItems_of_settled items (Value.settled_array_iff.mp h)]
  | _ => rfl

theorem stripItems_of_settled (items : List Value) (h : ∀ v ∈ items, v.Settled) :
    stripItems items = items := by
  cases items with
  | nil => rfl
  | cons v items =>
    obtain ⟨hv, hitems⟩ := List.forall_mem_cons.mp h
    rw [stripItems, if_neg hv.not_isUndefined, Value.strip_of_settled v hv,
      stripItems_of_settled items hitems]

theorem stripEntries_of_settled (entries : List (String × Value))
    (h : Document.Settled entries) : stripEntries entries = entries := by
  cases entries with
  | nil => rfl
  | cons e entries =>
    obtain ⟨name, v⟩ := e
    obtain ⟨hv, hentries⟩ := List.forall_mem_cons.mp h
    rw [stripEntries, if_neg hv.not_isUndefined, Value.strip_of_settled v hv,
      stripEntries_of_settled entries hentries]

end

theorem stripItems_eq_map_filter (items : List Value) :
    stripItems items = (items.filter fun v => !v.isUndefined).map Value.strip := by
  induction items with
  | nil => rfl
  | cons v items ih =>
    rw [stripItems, List.filter_cons, ih]
    cases v.isUndefined <;> rfl

theorem Value.IsPlain.strip_eq {v : Value} (hv : v.IsPlain) : v.strip = v := by
  cases v with
  | document d => exact absurd rfl (hv.1 d)
  | array items => exact absurd rfl (hv.2 items)
  | _ => rfl

namespace Document

variable {d : Document} {name path : String} {v : Value}

theorem strip_eq_map_filter (d : Document) :
    d.strip = (d.filter fun e => !e.2.isUndefined).map fun e => (e.1, e.2.strip) := by
  unfold strip
  induction d with
  | nil => rfl
  | cons e d ih =>
    obtain ⟨name, v⟩ := e
    rw [stripEntries, List.filter_cons, ih]
    cases v.isUndefined <;> rfl

theorem strip_eq_filterMap (d : Document) :
    d.strip = d.filterMap fun e => e.2.verdict.map (Prod.mk e.1) := by
  rw [strip_eq_map_filter, ← List.filterMap_eq_map, ← List.filterMap_eq_filter,
    List.filterMap_filterMap]
  refine List.filterMap_congr fun e _ => ?_
  cases h : e.2.isUndefined <;> simp [Option.guard, Value.verdict, h]

/-- Leaving out undefined values does to each attribute what a sparse update would. -/
theorem get?_strip_eq (h : d.keys.Nodup) (name : String) :
    d.strip.get? name = (d.get? name).bind Value.verdict := by
  rw [strip_eq_filterMap]
  exact get?_filterMap h (fun _ v => v.verdict) name

theorem strip_eq_self_iff (d : Document) : d.strip = d ↔ d.Settled :=
  ⟨fun h => h ▸ d.settled_strip, stripEntries_of_settled d⟩

theorem strip_strip (d : Document) : d.strip.strip = d.strip :=
  d.strip.strip_eq_self_iff.mpr d.settled_strip

theorem attributesOf_bind_verdict (o : Option Value) :
    attributesOf (o.bind Value.verdict) = (attributesOf o).strip := by
  cases o with
  | none => rfl
  | some v => cases v <;> rfl

theorem getAt_strip (hd : (Value.document d).NamesOnce) (name : String) (rest : List String) :
    d.strip.getAt name rest = (d.getAt name rest).bind Value.verdict := by
  induction rest generalizing d name with
  | nil => exact get?_strip_eq (Value.namesOnce_document_iff.mp hd).1 name
  | cons next rest ih =>
    have hkeys := (Value.namesOnce_document_iff.mp hd).1
    rw [getAt_cons, getAt_cons, get?_strip_eq hkeys, attributesOf_bind_verdict]
    exact ih (hd.attributesOf name) next

theorem Gives.getPath_strip (hg : d.Gives path v) (hd : d.isNamed = true) :
    d.strip.getPath (Path.ofString path) = v.verdict := by
  induction hg with
  | @here d name v h _ =>
    obtain ⟨hk, hnames, -⟩ := isNamed_iff.mp hd
    have hname := hnames name (List.mem_map_of_mem h)
    rw [Path.ofString_of_isName hname]
    change d.strip.get? name = v.verdict
    rw [get?_strip_eq hk, get?_of_mem hk h, Option.bind_some]
  | @nested d name sub path v h _ _ ih =>
    obtain ⟨hk, hnames, -⟩ := isNamed_iff.mp hd
    have hname := hnames name (List.mem_map_of_mem h)
    have hsub : d.strip.get? name = some (.document sub.strip) := by
      rw [get?_strip_eq hk, get?_of_mem hk h]
      rfl
    rw [← Path.join_of_ne hname.1, Path.ofString_join hname.1, Path.ofString_of_isName hname]
    change d.strip.getAt name ((Path.ofString path).first :: (Path.ofString path).rest) = _
    rw [getAt_cons, hsub]
    exact ih (isNamed_of_mem hd h)

theorem Gives.of_subset {e : Document} (hg : d.Gives path v) (h : ∀ a ∈ d, a ∈ e) :
    e.Gives path v := by
  cases hg with
  | here hm hv => exact .here (h _ hm) hv
  | nested hm hs hv => exact .nested (h _ hm) hs hv

/-- Leaving out undefined values leaves none at any depth, changes nothing if there are none, and
has nothing more to do the second time. Documents keep their other attributes and arrays their other
items, in their order, and all other values stay whole. Nothing is read where nothing or an
undefined value stood, and every other path leads to what stood there, without the undefined values
inside it. -/
theorem strip_removes_undefined {d : Document} (hd : (Value.document d).NamesOnce) :
    d.strip.Settled ∧ (d.strip = d ↔ d.Settled) ∧ d.strip.strip = d.strip ∧
      (∀ e : Document, (Value.document e).strip = .document e.strip ∧
        e.strip = (e.filter fun a => !a.2.isUndefined).map fun a => (a.1, a.2.strip)) ∧
      (∀ items, (Value.array items).strip =
        .array ((items.filter fun v => !v.isUndefined).map Value.strip)) ∧
      (∀ v : Value, v.IsPlain → v.strip = v) ∧
      (∀ p, d.getPath p = none ∨ d.getPath p = some .undefined → d.strip.getPath p = none) ∧
      ∀ p v, d.getPath p = some v → v ≠ .undefined → d.strip.getPath p = some v.strip := by
  have hpath : ∀ p, d.strip.getPath p = (d.getPath p).bind Value.verdict := fun p =>
    getAt_strip hd p.first p.rest
  refine ⟨d.settled_strip, d.strip_eq_self_iff, d.strip_strip,
    fun e => ⟨rfl, e.strip_eq_map_filter⟩, fun items => ?_, fun v hv => hv.strip_eq,
    fun p h => ?_, fun p v h hv => ?_⟩
  · rw [Value.strip, stripItems_eq_map_filter]
  · obtain h | h := h
    · rw [hpath, h, Option.bind_none]
    · rw [hpath, h, Option.bind_some, Value.verdict_eq_none_iff]
  · rw [hpath, h, Option.bind_some, Value.verdict_eq_some_iff]
    exact ⟨Bool.eq_false_iff.mpr fun hu => hv (Value.verdict_eq_none_iff.mp (if_pos hu)), rfl⟩

/-- Arrays close up, in an array as well, a document that is emptied stays, and the scope of a piece
of code is not looked into. -/
theorem strip_removes_undefined_film :
    let d : Document := [("year", .undefined), ("title", .string "Alien"),
      ("director", .document [("born", .undefined)]),
      ("cast", .array [.undefined, .document [("role", .undefined), ("name", .string "Weaver")],
        .array [.undefined, .null]]),
      ("check", .scopedCode "f" [("x", .undefined)])]
    (Value.document d).NamesOnce ∧ d.strip.Settled ∧ d.strip ≠ d ∧
      d.strip = [("title", .string "Alien"), ("director", .document []),
        ("cast", .array [.document [("name", .string "Weaver")], .array [.null]]),
        ("check", .scopedCode "f" [("x", .undefined)])] ∧
      d.strip.strip = d.strip ∧
      d.strip.getPath (Path.ofString "director.born") = none ∧
      d.strip.getPath (Path.ofString "director") = some (.document []) := by
  intro d
  have hd : (Value.document d).NamesOnce := by decide
  obtain ⟨hsettled, hsame, hagain, -, -, -, hnone, hsome⟩ := strip_removes_undefined hd
  have hopen : ¬ d.Settled := fun h =>
    h ("year", .undefined) List.mem_cons_self (.self .undefined)
  exact ⟨hd, hsettled, fun h => hopen (hsame.mp h), rfl, hagain, hnone _ (.inr rfl),
    hsome _ (.document [("born", .undefined)]) rfl nofun⟩

end Document

namespace Patch

theorem foldl_applySet_of_getPath {set : List (String × Value)} {state : Document × Bool}
    (h : ∀ e ∈ set, state.1.getPath (Path.ofString e.1) = some e.2) :
    (set.foldl applySet state).1 = state.1 := by
  induction set generalizing state with
  | nil => rfl
  | cons e set ih =>
    obtain ⟨he, hes⟩ := List.forall_mem_cons.mp h
    have hsame : (applySet state e).1 = state.1 := Document.setAt_of_getAt he
    rw [List.foldl_cons, ih (hsame.symm ▸ hes), hsame]

theorem foldl_applyUnset_of_getPath {unset : List String} {state : Document × Bool}
    (h : ∀ path ∈ unset, state.1.getPath (Path.ofString path) = none) :
    (unset.foldl applyUnset state).1 = state.1 := by
  induction unset generalizing state with
  | nil => rfl
  | cons path unset ih =>
    obtain ⟨hp, hps⟩ := List.forall_mem_cons.mp h
    have hsame : (applyUnset state path).1 = state.1 := Document.unsetAt_of_getAt hp
    rw [List.foldl_cons, ih (hsame.symm ▸ hps), hsame]

theorem apply_of_getPath {p : Patch} {d : Document}
    (hset : ∀ e ∈ p.set, d.getPath (Path.ofString e.1) = some e.2)
    (hunset : ∀ path ∈ p.unset, d.getPath (Path.ofString path) = none) : p.apply d = d := by
  have hassigned : (p.set.foldl applySet (d, false)).1 = d := foldl_applySet_of_getPath hset
  have hremoved := foldl_applyUnset_of_getPath (hassigned.symm ▸ hunset)
  rw [apply, run, hremoved, hassigned]

/-- Whatever part of a document a patch is made of, it changes nothing in the record that was
created from the document. -/
theorem apply_ofDocument_strip {d e : Document} (hd : d.isNamed = true) (h : e.Sublist d) :
    (ofDocument e).apply d.strip = d.strip := by
  have he := Document.isNamed_sublist hd h
  have hsays : ∀ path o, (ofDocument e).Says path o →
      d.strip.getPath (Path.ofString path) = o := by
    intro path o ho
    obtain ⟨v, hv, rfl⟩ := (says_ofDocument e he).mp ho
    exact (hv.of_subset h.subset).getPath_strip hd
  exact apply_of_getPath (fun f hf => hsays f.1 (some f.2) hf) fun path hp => hsays path none hp

end Patch

end RecordStore
