import RecordStore.Proofs.Selection.Restriction
import RecordStore.Proofs.Value.Equality

namespace RecordStore

mutual

/-- The part of a value at some rows of names: all of it if one of them ends here, nothing if there
are none. Of a document it has the attributes that rows begin with, of an array every element, of
anything else nothing. -/
def Value.restrict (rows : List (List String)) : Value → Option Value
  | .document d =>
    if [] ∈ rows then some (.document d)
    else if rows = [] then none
    else some (.document (restrictEntries rows d))
  | .array items =>
    if [] ∈ rows then some (.array items)
    else if rows = [] then none
    else some (.array (restrictItems rows items))
  | v => if [] ∈ rows then some v else none

def restrictItems (rows : List (List String)) : List Value → List Value
  | [] => []
  | .document d :: items => .document (restrictEntries rows d) :: restrictItems rows items
  | v :: items => v :: restrictItems rows items

def restrictEntries (rows : List (List String)) : List (String × Value) → Document
  | [] => []
  | (name, v) :: entries =>
    match v.restrict (tails name rows) with
    | some w => (name, w) :: restrictEntries rows entries
    | none => restrictEntries rows entries

end

def Document.restrict (d : Document) (rows : List (List String)) : Document :=
  restrictEntries rows d

namespace Value

variable {rows : List (List String)} {v : Value}

theorem restrict_of_mem (h : [] ∈ rows) (v : Value) : v.restrict rows = some v := by
  cases v <;> simp only [restrict, if_pos h]

theorem restrict_nil (v : Value) : v.restrict [] = none := by
  cases v <;> simp [restrict]

theorem restrict_of_isPlain (hv : v.IsPlain) (h : [] ∉ rows) : v.restrict rows = none := by
  cases v with
  | document d => exact absurd rfl (hv.1 d)
  | array items => exact absurd rfl (hv.2 items)
  | _ => exact if_neg h

theorem restrict_document (hne : rows ≠ []) (h : [] ∉ rows) (d : Document) :
    (document d).restrict rows = some (.document (d.restrict rows)) := by
  rw [restrict, if_neg h, if_neg hne, Document.restrict]

theorem restrict_array (hne : rows ≠ []) (h : [] ∉ rows) (items : List Value) :
    (array items).restrict rows = some (.array (restrictItems rows items)) := by
  rw [restrict, if_neg h, if_neg hne]

def restrictItem (rows : List (List String)) : Value → Value
  | .document d => .document (restrictEntries rows d)
  | v => v

theorem restrictItem_of_ne (h : ∀ d, v ≠ document d) : restrictItem rows v = v := by
  cases v with
  | document d => exact absurd rfl (h d)
  | _ => rfl

theorem restrictItems_eq_map (rows : List (List String)) (items : List Value) :
    restrictItems rows items = items.map (restrictItem rows) := by
  induction items with
  | nil => rfl
  | cons v items ih => cases v <;> simp only [restrictItems, restrictItem, List.map_cons, ih]

end Value

namespace Document

theorem restrict_eq_filterMap (rows : List (List String)) (d : Document) :
    d.restrict rows = d.filterMap fun e => (e.2.restrict (tails e.1 rows)).map (Prod.mk e.1) := by
  unfold restrict
  induction d with
  | nil => rfl
  | cons e d ih =>
    obtain ⟨k, v⟩ := e
    rw [restrictEntries, List.filterMap_cons, ih]
    cases v.restrict (tails k rows) <;> rfl

theorem get?_restrict {d : Document} (hd : d.keys.Nodup) (rows : List (List String))
    (name : String) :
    (d.restrict rows).get? name = (d.get? name).bind (Value.restrict (tails name rows)) := by
  rw [restrict_eq_filterMap]
  exact get?_filterMap hd (fun name v => v.restrict (tails name rows)) name

theorem restrictsTo_of_parts {d : Document} (hd : d.keys.Nodup)
    (h : ∀ e ∈ d, ∀ rows, Restricts rows e.2 (e.2.restrict rows)) (rows : List (List String)) :
    RestrictsTo rows d (d.restrict rows) := by
  constructor
  · intro name hn
    rw [get?_restrict hd, hn, Option.bind_none]
  · intro name v hv
    rw [get?_restrict hd, hv, Option.bind_some]
    exact h (name, v) (mem_of_get? hv) _

end Document

namespace Value

variable {rows : List (List String)} {v : Value}

theorem restricts_restrict_of
    (h : rows ≠ [] → [] ∉ rows → Restricts rows v (v.restrict rows)) :
    Restricts rows v (v.restrict rows) := by
  by_cases hm : [] ∈ rows
  · rw [restrict_of_mem hm]
    exact .whole v hm
  · by_cases hne : rows = []
    · rw [hne, restrict_nil]
      exact .none v
    · exact h hne hm

theorem IsPlain.restricts_restrict (hv : v.IsPlain) : Restricts rows v (v.restrict rows) :=
  restricts_restrict_of fun hne hm => restrict_of_isPlain hv hm ▸ .plain hne hm hv

theorem restricts_restrict (hv : v.NamesOnce) (rows : List (List String)) :
    Restricts rows v (v.restrict rows) := by
  induction v using parts_induction generalizing rows with
  | leaf v hl => exact IsPlain.restricts_restrict ⟨hl.1, hl.2.2⟩
  | inDocument d ih =>
    obtain ⟨hkeys, hparts⟩ := namesOnce_document_iff.mp hv
    obtain ⟨hn, hs⟩ := Document.restrictsTo_of_parts hkeys (fun e he => ih e he (hparts e he)) rows
    refine restricts_restrict_of fun hne hm => ?_
    rw [restrict_document hne hm]
    exact .document hne hm hn hs
  | inScope source scope => exact IsPlain.restricts_restrict ⟨nofun, nofun⟩
  | inArray items ih =>
    obtain ⟨-, hparts⟩ := everyPart_array_iff.mp hv
    refine restricts_restrict_of fun hne hm => ?_
    rw [restrict_array hne hm, restrictItems_eq_map]
    refine .array hne hm (List.length_map _) (fun i d w hi hw => ?_) fun i v w hi hd hw => ?_
    · have hmem := List.mem_of_getElem? hi
      have hpart := ih _ hmem (hparts _ hmem) rows
      rw [List.getElem?_map, hi] at hw
      rw [restrict_document hne hm] at hpart
      exact Option.some.inj hw ▸ hpart
    · rw [List.getElem?_map, hi] at hw
      rw [← Option.some.inj hw]
      exact restrictItem_of_ne hd

end Value

theorem Document.restrictsTo_restrict {d : Document} (hd : (Value.document d).NamesOnce)
    (rows : List (List String)) : RestrictsTo rows d (d.restrict rows) := by
  obtain ⟨hkeys, hparts⟩ := Value.namesOnce_document_iff.mp hd
  exact restrictsTo_of_parts hkeys (fun e he => Value.restricts_restrict (hparts e he)) rows

theorem Document.RestrictsTo.exists_get? {rows : List (List String)} {d e : Document}
    (h : RestrictsTo rows d e) {name : String} {v : Value} (hv : e.get? name = some v) :
    ∃ u, d.get? name = some u := by
  cases hd : d.get? name with
  | none => exact absurd (hv.symm.trans (h.absent name hd)) (Option.some_ne_none v)
  | some u => exact ⟨u, rfl⟩

theorem Restricts.self {rows : List (List String)} {v w : Value} {r : Option Value}
    (h : Restricts rows v r) (hr : r = some w) : Restricts rows w r := by
  induction h generalizing w with
  | none => cases hr
  | whole v hm =>
    obtain rfl := Option.some.inj hr
    exact .whole v hm
  | plain => cases hr
  | @document rows d e hne hm hn hs ih =>
    obtain rfl := Option.some.inj hr
    refine .document hne hm (fun _ h => h) fun name v hv => ?_
    obtain ⟨u, hu⟩ := Document.RestrictsTo.exists_get? ⟨hn, hs⟩ hv
    exact ih name u hu hv
  | @array rows items kept hne hm hl _ ho ih =>
    obtain rfl := Option.some.inj hr
    refine .array hne hm rfl (fun i d v hi hv => ?_) fun i v w hi _ hw =>
      Option.some.inj (hw.symm.trans hi)
    obtain rfl := Option.some.inj (hi.symm.trans hv)
    obtain ⟨u, hu⟩ : ∃ u, items[i]? = some u :=
      ⟨_, List.getElem?_eq_getElem (hl ▸ (List.getElem?_eq_some_iff.mp hi).1)⟩
    by_cases hdoc : ∃ sub, u = .document sub
    · obtain ⟨sub, rfl⟩ := hdoc
      exact ih i sub _ hu hi rfl
    · exact absurd ⟨d, (ho i u _ hu (fun sub he => hdoc ⟨sub, he⟩) hi).symm⟩ hdoc

namespace Document.RestrictsTo

variable {rows : List (List String)} {d e : Document} {name : String} {rest : List String}

theorem self (h : RestrictsTo rows d e) : RestrictsTo rows e e := by
  refine ⟨fun _ hn => hn, fun name v hv => ?_⟩
  obtain ⟨u, hu⟩ := h.exists_get? hv
  exact (h.present name u hu).self hv

theorem alike {rows' : List (List String)} {e' : Document} (h : RestrictsTo rows d e)
    (h' : RestrictsTo rows' d e') (hr : ∀ row, row ∈ rows ↔ row ∈ rows') : e.Alike e' := by
  refine Document.alike_of_rel fun name => ?_
  cases hd : d.get? name with
  | none =>
    rw [h.absent name hd, h'.absent name hd]
    exact .none
  | some v =>
    refine (h.present name v hd).alike (h'.present name v hd) fun row => ?_
    rw [mem_tails, mem_tails, hr]

theorem get?_eq (h : RestrictsTo rows d e) (hm : [] ∈ tails name rows) :
    e.get? name = d.get? name := by
  cases hd : d.get? name with
  | none => exact h.absent name hd
  | some v => exact (h.present name v hd).eq_some hm

theorem below (h : RestrictsTo rows d e) (hm : [] ∉ tails name rows) :
    RestrictsTo (tails name rows) (attributesOf (d.get? name)) (attributesOf (e.get? name)) := by
  cases hd : d.get? name with
  | none =>
    rw [h.absent name hd]
    exact restrictsTo_empty _
  | some v => exact (h.present name v hd).attributesOf hm

theorem getAt_eq (h : RestrictsTo rows d e) (hm : name :: rest ∈ rows) :
    e.getAt name rest = d.getAt name rest := by
  induction rest generalizing rows d e name with
  | nil => exact h.get?_eq (mem_tails.mpr hm)
  | cons next rest ih =>
    by_cases hw : [] ∈ tails name rows
    · exact getAt_congr (h.get?_eq hw) _
    · rw [getAt_cons, getAt_cons]
      exact ih (h.below hw) (mem_tails.mpr hm)

theorem exists_row_of_getAt (h : RestrictsTo rows d e) {v : Value}
    (hv : e.getAt name rest = some v) :
    ∃ row ∈ rows, row <+: name :: rest ∨ name :: rest <+: row := by
  induction rest generalizing rows d e name with
  | nil =>
    obtain ⟨u, hu⟩ := h.exists_get? hv
    have hne : tails name rows ≠ [] := fun hnil => by
      have hnone := (hnil ▸ h.present name u hu).eq_none_of_nil
      exact absurd (hv.symm.trans hnone) (Option.some_ne_none v)
    obtain ⟨row, hm⟩ := List.exists_mem_of_ne_nil _ hne
    exact ⟨name :: row, mem_tails.mp hm, .inr (by simp)⟩
  | cons next rest ih =>
    by_cases hw : [] ∈ tails name rows
    · exact ⟨[name], mem_tails.mp hw, .inl (by simp)⟩
    · rw [getAt_cons] at hv
      obtain ⟨row, hm, hrow⟩ := ih (h.below hw) hv
      refine ⟨name :: row, mem_tails.mp hm, ?_⟩
      rwa [List.cons_prefix_cons, List.cons_prefix_cons, and_iff_right rfl, and_iff_right rfl]

end Document.RestrictsTo

namespace Projection

/-- A projection to paths leaves the part of a document at the rows of its paths. It reads as the
document at its paths, and nothing is read from it but on the way to one of them or beyond. Other
paths with the same rows leave the same, and so does the projection of what it has left. -/
theorem apply_restricts {d : Document} (hd : (Value.document d).NamesOnce) (ps : List String) :
    let e := (paths ps).apply d
    e.Alike (d.restrict (Path.rows ps)) ∧
      (∀ p ∈ ps, e.getPath (Path.ofString p) = d.getPath (Path.ofString p)) ∧
      (∀ q v, e.getPath (Path.ofString q) = some v →
        ∃ p ∈ ps, q = p ∨ Path.DottedPrefix q p ∨ Path.DottedPrefix p q) ∧
      (∀ qs : List String, (∀ p, p ∈ qs ↔ p ∈ ps) → ((paths qs).apply d).Alike e) ∧
      ((paths ps).apply e).Alike e := by
  intro e
  have he : Document.RestrictsTo (Path.rows ps) d e := restrictsTo_apply ps d
  refine ⟨?_, fun p hp => ?_, fun q v hv => ?_, fun qs hqs => ?_, ?_⟩
  · exact he.alike (Document.restrictsTo_restrict hd _) fun _ => Iff.rfl
  · exact he.getAt_eq (Path.mem_rows.mpr ⟨p, hp, rfl⟩)
  · obtain ⟨row, hm, hrow⟩ := he.exists_row_of_getAt hv
    obtain ⟨p, hp, rfl⟩ := Path.mem_rows.mp hm
    refine ⟨p, hp, ?_⟩
    obtain h | h := hrow
    · exact (Path.names_prefix_iff.mp h).elim (fun h => .inl h.symm) fun h => .inr (.inr h)
    · exact (Path.names_prefix_iff.mp h).imp_right .inl
  · refine (restrictsTo_apply qs d).alike he fun row => ?_
    simp only [Path.mem_rows, hqs]
  · exact (restrictsTo_apply ps e).alike he.self fun _ => Iff.rfl

/-- A path comes twice, another one leads through it, an array mixes documents with other values,
and one path goes on where nothing is below. -/
theorem apply_restricts_film :
    let ps := ["cast.name", "director.born", "director", "year.month", "director.born"]
    let qs := ["year.month", "director", "cast.name", "director.born"]
    let d : Document := [("title", .string "Alien"), ("year", .int32 1979),
      ("director", .document [("name", .string "Scott"), ("born", .int32 1937)]),
      ("cast", .array [.document [("name", .string "Weaver"), ("role", .string "Ripley")],
        .null, .array [.document [("role", .string "Dallas")]]])]
    let e := (paths ps).apply d
    (Value.document d).NamesOnce ∧ (∀ p, p ∈ qs ↔ p ∈ ps) ∧ e.Alike (d.restrict (Path.rows ps)) ∧
      d.restrict (Path.rows ps) =
        [("director", .document [("name", .string "Scott"), ("born", .int32 1937)]),
          ("cast", .array [.document [("name", .string "Weaver")], .null,
            .array [.document [("role", .string "Dallas")]]])] ∧
      e.getPath (Path.ofString "director.born") = some (.int32 1937) ∧
      e.getPath (Path.ofString "year.month") = none ∧
      (∀ q v, e.getPath (Path.ofString q) = some v →
        ∃ p ∈ ps, q = p ∨ Path.DottedPrefix q p ∨ Path.DottedPrefix p q) ∧
      ((paths qs).apply d).Alike e ∧ ((paths ps).apply e).Alike e := by
  intro ps qs d e
  have hd : (Value.document d).NamesOnce := by decide
  have hqs : ∀ p, p ∈ qs ↔ p ∈ ps := fun p => by
    simp only [ps, qs, List.mem_cons, List.not_mem_nil, or_false]
    tauto
  obtain ⟨halike, hreads, hnear, hsame, hagain⟩ := apply_restricts hd ps
  exact ⟨hd, hqs, halike, rfl, hreads "director.born" (by simp [ps]),
    hreads "year.month" (by simp [ps]), hnear, hsame qs hqs, hagain⟩

end Projection

end RecordStore
