import RecordStore.Proofs.Patch.Sparse

namespace RecordStore.Patch

section Fold

variable {set : List (String × Value)} {unset : List String} {q : String}

theorem getPath_foldl_applySet_of_apart (h : ∀ e ∈ set, Path.Apart e.1 q)
    (state : Document × Bool) :
    (set.foldl applySet state).1.getPath (Path.ofString q) =
      state.1.getPath (Path.ofString q) :=
  read_foldl_applySet (Document.getPath · (Path.ofString q))
    (fun e he d => Document.getPath_setPath_of_apart (h e he) d e.2) state

theorem getPath_foldl_applyUnset_of_apart (h : ∀ path ∈ unset, Path.Apart path q)
    (state : Document × Bool) :
    (unset.foldl applyUnset state).1.getPath (Path.ofString q) =
      state.1.getPath (Path.ofString q) :=
  read_foldl_applyUnset (Document.getPath · (Path.ofString q))
    (fun path hp d => Document.getPath_unsetPath_of_apart (h path hp) d) state

theorem getPath_foldl_applySet (h : (set.map Prod.fst).Pairwise Path.Apart) {e : String × Value}
    (he : e ∈ set) (state : Document × Bool) :
    (set.foldl applySet state).1.getPath (Path.ofString e.1) = some e.2 := by
  induction set generalizing state with
  | nil => exact nomatch he
  | cons f set ih =>
    rw [List.map_cons, List.pairwise_cons] at h
    rw [List.foldl_cons]
    obtain rfl | he := List.mem_cons.mp he
    · have hrest : ∀ f ∈ set, Path.Apart f.1 e.1 := fun f hf =>
        (h.1 f.1 (List.mem_map_of_mem hf)).symm
      rw [getPath_foldl_applySet_of_apart hrest]
      exact Document.getPath_setPath_self state.1 _ e.2
    · exact ih h.2 he _

theorem getPath_foldl_applyUnset (h : unset.Pairwise Path.Apart) {path : String}
    (hp : path ∈ unset) (state : Document × Bool) :
    (unset.foldl applyUnset state).1.getPath (Path.ofString path) = none := by
  induction unset generalizing state with
  | nil => exact nomatch hp
  | cons first unset ih =>
    rw [List.pairwise_cons] at h
    rw [List.foldl_cons]
    obtain rfl | hp := List.mem_cons.mp hp
    · rw [getPath_foldl_applyUnset_of_apart fun q hq => (h.1 q hq).symm]
      exact Document.getPath_unsetPath_self state.1 _
    · exact ih h.2 hp _

end Fold

variable {p : Patch} {q : String}

theorem getPath_apply_of_apart (h : ∀ path ∈ p.paths, Path.Apart path q) (d : Document) :
    (p.apply d).getPath (Path.ofString q) = d.getPath (Path.ofString q) := by
  apply read_apply (Document.getPath · (Path.ofString q))
  · exact fun path hp d v => Document.getPath_setPath_of_apart (h path hp) d v
  · exact fun path hp d => Document.getPath_unsetPath_of_apart (h path hp) d

theorem getPath_apply_set (h : p.paths.Pairwise Path.Apart) {e : String × Value} (he : e ∈ p.set)
    (d : Document) : (p.apply d).getPath (Path.ofString e.1) = some e.2 := by
  obtain ⟨hset, -, hcross⟩ := List.pairwise_append.mp h
  have hunset : ∀ path ∈ p.unset, Path.Apart path e.1 := fun path hp =>
    (hcross e.1 (List.mem_map_of_mem he) path hp).symm
  rw [apply, run, getPath_foldl_applyUnset_of_apart hunset]
  exact getPath_foldl_applySet hset he _

theorem getPath_apply_unset (h : p.paths.Pairwise Path.Apart) {path : String}
    (hp : path ∈ p.unset) (d : Document) :
    (p.apply d).getPath (Path.ofString path) = none := by
  obtain ⟨-, hunset, -⟩ := List.pairwise_append.mp h
  exact getPath_foldl_applyUnset hunset hp _

/-- The patch of a sparse document lays over a record what the document gives: assignments
without undefined values, removals where an undefined value stands, and nothing else. -/
theorem apply_ofDocument_overlays {s : Document} (h : s.isNamed = true) (r : Document) :
    let p := ofDocument s
    (∀ e ∈ p.set, (p.apply r).getPath (Path.ofString e.1) = some e.2) ∧
      (∀ path ∈ p.unset, (p.apply r).getPath (Path.ofString path) = none) ∧
      (∀ q, (∀ path ∈ p.paths, Path.Apart path q) →
        (p.apply r).getPath (Path.ofString q) = r.getPath (Path.ofString q)) ∧
      (∀ path, path ∈ p.unset ↔ s.Gives path .undefined) ∧
      ∀ path v, (path, v) ∈ p.set ↔
        ∃ w, s.Gives path w ∧ w.isUndefined = false ∧ w.strip = v := by
  intro p
  have hp : p.paths.Pairwise Path.Apart := pairwise_ofDocument s h
  refine ⟨fun e he => getPath_apply_set hp he r, fun path hu => getPath_apply_unset hp hu r,
    fun q hq => getPath_apply_of_apart hq r, fun path => ?_, fun path v => ?_⟩
  · apply (says_ofDocument s h (o := none)).trans
    constructor
    · rintro ⟨w, hw, ho⟩
      rwa [Value.verdict_eq_none_iff.mp ho] at hw
    · exact fun hw => ⟨_, hw, rfl⟩
  · apply (says_ofDocument s h (o := some v)).trans
    simp only [Value.verdict_eq_some_iff]

/-- A marked document is laid over attribute by attribute, an unmarked one replaces what was
there, and an attribute of which nothing is said stays. -/
theorem apply_ofDocument_overlays_film :
    let s : Document := [("title", .string "Aliens"), ("year", .undefined),
      ("director", .document [("name", .string "Cameron"), ("born", .undefined)]),
      ("cast", .document [("lead", .string "Weaver")])]
    let r : Document := [("id", .int32 1), ("year", .int32 1979),
      ("director", .document [("born", .int32 1937), ("country", .string "UK")]),
      ("cast", .document [("second", .string "Skerritt")])]
    let read (path : String) := ((ofDocument s).apply r).getPath (Path.ofString path)
    s.isNamed = true ∧ read "title" = some (.string "Aliens") ∧ read "year" = none ∧
      read "director.name" = some (.string "Cameron") ∧ read "director.born" = none ∧
      read "director.country" = some (.string "UK") ∧
      read "cast" = some (.document [("lead", .string "Weaver")]) ∧
      read "id" = some (.int32 1) ∧ s.Gives "director.born" .undefined := by
  intro s r read
  have hs : s.isNamed = true := by decide
  obtain ⟨hset, hunset, hrest, hgone, -⟩ := apply_ofDocument_overlays hs r
  have hp : ofDocument s = ⟨[("title", .string "Aliens"), ("director.name", .string "Cameron"),
      ("cast", .document [("lead", .string "Weaver")])], ["year", "director.born"]⟩ := rfl
  have hpaths : (ofDocument s).paths =
      ["title", "director.name", "cast", "year", "director.born"] := rfl
  have hborn : "director.born" ∈ (ofDocument s).unset := by simp [hp]
  refine ⟨hs, ?_, ?_, ?_, hunset _ hborn, ?_, ?_, ?_, (hgone _).mp hborn⟩
  · exact hset ("title", .string "Aliens") (by simp [hp])
  · exact hunset "year" (by simp [hp])
  · exact hset ("director.name", .string "Cameron") (by simp [hp])
  · exact hrest "director.country" (by rw [hpaths]; decide)
  · exact hset ("cast", .document [("lead", .string "Weaver")]) (by simp [hp])
  · exact hrest "id" (by rw [hpaths]; decide)

end RecordStore.Patch
