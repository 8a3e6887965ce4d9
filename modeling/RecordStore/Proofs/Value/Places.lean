import RecordStore.Proofs.Patch.Permuted
import RecordStore.Proofs.Selection.Projected

namespace RecordStore.Document

theorem getPath_copyPath_nil (d : Document) (p : Path) :
    (d.copyPath [] p).getPath p = d.getPath p := by
  have h : RestrictsTo [p.names] d (d.copyPath [] p) := (restrictsTo_nil d).copyAt
  exact h.getAt_eq (List.mem_singleton_self _)

theorem getPath_attributesOf (o : Option Value) (p : Path) :
    getPath (attributesOf o) p = match o with
      | some (.document sub) => getPath sub p
      | _ => none := by
  obtain ⟨sub, rfl⟩ | ⟨hnil, hne⟩ := document_or o
  · rfl
  · rw [hnil]
    split
    · exact absurd rfl (hne _)
    · exact getAt_nil p.first p.rest

theorem alike_setPath_comm {p q : String} (h : Path.Apart p q) (d : Document) (v w : Value) :
    ((d.setPath (Path.ofString p) v).setPath (Path.ofString q) w).Alike
      ((d.setPath (Path.ofString q) w).setPath (Path.ofString p) v) := by
  have hshuffled : Patch.Shuffled ⟨[(p, v), (q, w)], []⟩ ⟨[(q, w), (p, v)], []⟩ :=
    ⟨.swap _ _ _, .refl _⟩
  exact hshuffled.alike_apply (List.pairwise_pair.mpr h) d

/-- Reading, assigning, removing and copying take a path to the same place. The first four parts
hold of all paths. The last one is about paths of which neither goes on from the other: an
assignment or a removal at one is not noticed at the other, and two assignments come to the same in
either order, but for the order of attributes. -/
theorem walks_lead_to_one_place (d : Document) (v w : Value) (p q : String) :
    let here := Path.ofString p
    let there := Path.ofString q
    (d.setPath here v).getPath here = some v ∧
      (d.unsetPath here).getPath here = none ∧
      (d.copyPath [] here).getPath here = d.getPath here ∧
      (d.getPath (Path.ofString (p ++ "." ++ q)) = match d.getPath here with
        | some (.document sub) => getPath sub there
        | _ => none) ∧
      (¬ here.names <+: there.names → ¬ there.names <+: here.names →
        (d.setPath here v).getPath there = d.getPath there ∧
          (d.unsetPath here).getPath there = d.getPath there ∧
          ((d.setPath here v).setPath there w).Alike ((d.setPath there w).setPath here v)) := by
  intro here there
  refine ⟨d.getPath_setPath_self here v, d.getPath_unsetPath_self here, d.getPath_copyPath_nil here,
    ?_, fun hp hq => ?_⟩
  · rw [getPath_dotted]
    exact getPath_attributesOf _ there
  · have hapart : Path.Apart p q := Path.apart_iff.mpr ⟨hp, hq⟩
    exact ⟨getPath_setPath_of_apart hapart d v, getPath_unsetPath_of_apart hapart d,
      alike_setPath_comm hapart d v w⟩

/-- A text stands in the way of both paths, one of which has an empty name in it. Then two empty
names in a row, and a path that would lead through an array. -/
theorem walks_lead_to_one_place_film :
    let d : Document := [("director", .string "unknown"),
      ("cast", .array [.document [("name", .string "Weaver")]]),
      ("", .document [("", .int32 1)])]
    let here := Path.ofString "director.name"
    let there := Path.ofString "director..born"
    let name := Value.string "Scott"
    let born := Value.int32 1937
    ¬ here.names <+: there.names ∧ ¬ there.names <+: here.names ∧
      (d.setPath here name).getPath here = some name ∧
      (d.unsetPath here).getPath there = d.getPath there ∧
      ((d.setPath here name).setPath there born).Alike
        ((d.setPath there born).setPath here name) ∧
      ((d.setPath here name).setPath there born).get? "director" =
        some (.document [("name", name), ("", .document [("born", born)])]) ∧
      ((d.setPath there born).setPath here name).get? "director" =
        some (.document [("", .document [("born", born)]), ("name", name)]) ∧
      d.getPath (Path.ofString ("" ++ "." ++ "")) = some (.int32 1) ∧
      (d.copyPath [] (Path.ofString "cast.name")).getPath (Path.ofString "cast.name") = none := by
  intro d here there name born
  have hhere : ¬ here.names <+: there.names := by decide
  have hthere : ¬ there.names <+: here.names := by decide
  obtain ⟨hset, -, -, -, hapart⟩ :=
    walks_lead_to_one_place d name born "director.name" "director..born"
  obtain ⟨-, hunset, halike⟩ := hapart hhere hthere
  obtain ⟨-, -, -, hdotted, -⟩ := walks_lead_to_one_place d name born "" ""
  obtain ⟨-, -, hcopied, -⟩ := walks_lead_to_one_place d name born "cast.name" ""
  exact ⟨hhere, hthere, hset, hunset, halike, rfl, rfl, hdotted, hcopied⟩

end RecordStore.Document
