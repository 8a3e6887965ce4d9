import RecordStore.Proofs.Selection.Inside
import RecordStore.Proofs.Selection.Pushdown

namespace RecordStore.Selector

/-- Wherever the second selection takes something, so does the first. -/
def Covers (wide s : Selector) : Prop := ∀ row, wide.inside row = nothing → s.inside row = nothing

section Covers

variable {wide s a b : Selector}

theorem Covers.refl (s : Selector) : s.Covers s := fun _ h => h

theorem Covers.get (h : wide.Covers s) (name : String) : (wide.get name).Covers (s.get name) :=
  fun row => h (name :: row)

theorem merge_covers_left (a : Selector) (hb : b.NamesOnce) : (a.merge b).Covers a := by
  intro row h
  rw [inside_merge a hb, merge_eq_nothing_iff] at h
  exact h.1

theorem merge_covers_right (a : Selector) (hb : b.NamesOnce) : (a.merge b).Covers b := by
  intro row h
  rw [inside_merge a hb, merge_eq_nothing_iff] at h
  exact h.2

end Covers

section Picked

variable {wide s : Selector}

def pickEntry (s : Selector) (e : String × Value) : Option (String × Value) :=
  if (s.get e.1).isNothing then none else some (e.1, (s.get e.1).pickValue e.2)

theorem pickEntries_eq_filterMap (s : Selector) (d : Document) :
    s.pickEntries [] d = d.filterMap s.pickEntry := by
  induction d with
  | nil => rfl
  | cons e d ih =>
    obtain ⟨name, v⟩ := e
    rw [pickEntries, List.filterMap_cons, pickEntry, ih]
    cases (s.get name).isNothing <;> rfl

theorem pick_eq_filterMap (s : Selector) (d : Document) :
    d.pick s [] = d.filterMap s.pickEntry := by
  cases s with
  | all =>
    have hall : all.pickEntry = some := by
      funext e
      exact congrArg (fun v => some (e.1, v)) (pickValue_all e.2)
    rw [hall, List.filterMap_some]
    rfl
  | nothing | fields _ => exact pickEntries_eq_filterMap _ d

theorem pickValue_of_covers (h : wide.Covers s) (v : Value) :
    s.pickValue (wide.pickValue v) = s.pickValue v := by
  induction v using Value.parts_induction generalizing wide s with
  | leaf v hl => rw [pickValue_of_isPlain ⟨hl.1, hl.2.2⟩ wide]
  | inScope source scope => rfl
  | inArray items ih =>
    rw [pickValue_array, pickValue_array, pickValue_array, List.map_map]
    exact congrArg Value.array (List.map_congr_left fun v hv => ih v hv h)
  | inDocument d ih =>
    rw [pickValue_document, pickValue_document, pickValue_document, pick_eq_filterMap,
      pick_eq_filterMap, pick_eq_filterMap, List.filterMap_filterMap]
    refine congrArg Value.document (List.filterMap_congr fun e he => ?_)
    rw [pickEntry]
    cases hn : (wide.get e.1).isNothing with
    | true =>
      have hs : s.get e.1 = nothing := h [e.1] (isNothing_iff.mp hn)
      simp [pickEntry, hs, isNothing]
    | false =>
      rw [if_neg Bool.false_ne_true, Option.bind_some, pickEntry, pickEntry, ih e he (h.get e.1)]

theorem pick_of_covers (h : wide.Covers s) (d : Document) :
    (d.pick wide []).pick s [] = d.pick s [] :=
  Value.document.inj (pickValue_of_covers h (.document d))

end Picked

section Read

variable {b : Selector}

theorem attributesOf_map_pickValue (s : Selector) (v : Option Value) :
    Document.attributesOf (v.map s.pickValue) = (Document.attributesOf v).pick s [] := by
  have hempty : Document.pick [] s [] = [] := by rw [pick_eq_filterMap, List.filterMap_nil]
  cases v with
  | none => exact hempty.symm
  | some v =>
    cases v with
    | document d => rfl
    | _ => exact hempty.symm

theorem getAt_pick (s : Selector) (d : Document) (name : String) (rest : List String) :
    (d.pick s []).getAt name rest =
      if (s.inside (name :: rest)).isNothing then none
      else (d.getAt name rest).map (s.inside (name :: rest)).pickValue := by
  induction rest generalizing s d name with
  | nil =>
    rw [inside_cons, inside_nil]
    exact (get?_pick s [] d name).trans (by simp [Document.getAt])
  | cons next rest ih =>
    rw [Document.getAt_cons, Document.getAt_cons d, get?_pick, inside_cons]
    cases hn : (s.get name).isNothing with
    | true =>
      rw [isNothing_iff.mp hn, inside_nothing]
      exact Document.getAt_nil next rest
    | false =>
      rw [if_neg Bool.false_ne_true, attributesOf_map_pickValue]
      exact ih _ _ next

theorem isSome_getPath_pick_iff (s : Selector) (d : Document) (p : Path) :
    ((d.pick s []).getPath p).isSome ↔ s.inside p.names ≠ nothing ∧ (d.getPath p).isSome := by
  rw [Document.getPath, getAt_pick, Path.names, Document.getPath]
  cases hn : (s.inside (p.first :: p.rest)).isNothing with
  | true => simp [isNothing_iff.mp hn]
  | false =>
    have hne : s.inside (p.first :: p.rest) ≠ nothing := fun h => by simp [h, isNothing] at hn
    simp [hne]

theorem isSome_getPath_pick_merge_iff (a : Selector) (hb : b.NamesOnce) (d : Document) (p : Path) :
    ((d.pick (a.merge b) []).getPath p).isSome ↔
      ((d.pick a []).getPath p).isSome ∨ ((d.pick b []).getPath p).isSome := by
  simp only [isSome_getPath_pick_iff, inside_merge a hb, ne_eq, merge_eq_nothing_iff, not_and_or,
    or_and_right]

end Read

/-- Each of two selections takes the same from what their union has taken as from the document, and
so does a selection from what it has taken itself. A path that leads to something in what the union
takes leads to something in what one of them takes. -/
theorem pick_after_merge (a : Selector) {b : Selector} (hb : b.Canonical) (d : Document) :
    (d.pick (a.merge b) []).pick a [] = d.pick a [] ∧
      (d.pick (a.merge b) []).pick b [] = d.pick b [] ∧
      (d.pick a []).pick a [] = d.pick a [] ∧
      ∀ p, ((d.pick (a.merge b) []).getPath (Path.ofString p)).isSome ↔
        ((d.pick a []).getPath (Path.ofString p)).isSome ∨
          ((d.pick b []).getPath (Path.ofString p)).isSome :=
  ⟨pick_of_covers (merge_covers_left a hb.namesOnce) d,
    pick_of_covers (merge_covers_right a hb.namesOnce) d, pick_of_covers (.refl a) d,
    fun p => isSome_getPath_pick_merge_iff a hb.namesOnce d (Path.ofString p)⟩

/-- One selection is empty where the other goes on, both go on below an attribute of the documents
in an array, and an element of it has no attributes. -/
theorem pick_after_merge_film :
    let a : Selector := .fields [("director", .fields []),
      ("cast", .fields [("lead", .fields [("name", .all)])])]
    let b : Selector := .fields [("cast", .fields [("lead", .fields [("role", .all)])]),
      ("director", .fields [("name", .all)])]
    let d : Document := [("title", .string "Alien"),
      ("director", .document [("name", .string "Scott"), ("born", .int32 1937)]),
      ("cast", .array [.null, .document [("lead", .document [("name", .string "Weaver"),
        ("role", .string "Ripley"), ("age", .int32 30)])]])]
    let wide := d.pick (a.merge b) []
    b.Canonical ∧
      wide = [("director", .document [("name", .string "Scott")]),
        ("cast", .array [.null, .document [("lead", .document [("name", .string "Weaver"),
          ("role", .string "Ripley")])]])] ∧
      wide.pick a [] = d.pick a [] ∧ wide.pick b [] = d.pick b [] ∧
      d.pick a [] = [("director", .document []),
        ("cast", .array [.null, .document [("lead", .document [("name", .string "Weaver")])]])] ∧
      (d.pick a []).pick a [] = d.pick a [] ∧
      ((wide.getPath (Path.ofString "director.name")).isSome ↔
        ((d.pick a []).getPath (Path.ofString "director.name")).isSome ∨
          ((d.pick b []).getPath (Path.ofString "director.name")).isSome) ∧
      (wide.getPath (Path.ofString "director.name")).isSome := by
  intro a b d wide
  have hb : b.Canonical := canonical_ofValue (rfl : ofValue b.toValue = .ok b)
  have hwide : wide = [("director", .document [("name", .string "Scott")]),
      ("cast", .array [.null, .document [("lead", .document [("name", .string "Weaver"),
        ("role", .string "Ripley")])]])] := rfl
  obtain ⟨ha', hb', hself, hread⟩ := pick_after_merge a hb d
  exact ⟨hb, hwide, ha', hb', rfl, hself, hread "director.name", by rw [hwide]; rfl⟩

end RecordStore.Selector
