import RecordStore.Proofs.Patch.Idempotence
import RecordStore.Proofs.Patch.Overlay

namespace RecordStore.Patch

/-- What passes from the patches below the attributes to a patch holds of every patch. -/
theorem below_induction {motive : Patch → Prop} (empty : motive .empty)
    (step : ∀ p, (∀ name, motive (p.below name)) → motive p) (p : Patch) : motive p := by
  have hbound : ∀ n (p : Patch),
      (∀ path ∈ p.paths, (Path.ofString path).names.length ≤ n) → motive p := by
    intro n
    induction n with
    | zero =>
      intro p hp
      have hnone : p.paths = [] := List.eq_nil_iff_forall_not_mem.mpr fun path hm =>
        absurd (hp path hm) (by simp [Path.names])
      obtain ⟨hset, hunset⟩ := List.append_eq_nil_iff.mp hnone
      obtain rfl : p = .empty := congr (congrArg Patch.mk (List.map_eq_nil_iff.mp hset)) hunset
      exact empty
    | succ n ih => exact fun p hp => step p fun name => ih _ (length_names_of_mem_below hp)
  refine hbound (p.paths.map fun path => (Path.ofString path).names.length).sum p fun path hm => ?_
  exact List.single_le_sum (fun _ _ => Nat.zero_le _) _ (List.mem_map_of_mem hm)

variable {p q : Patch} {name path : String}

theorem exists_outcome (h : path ∈ p.paths) : ∃ o, p.Says path o := by
  obtain h | h := List.mem_append.mp h
  · obtain ⟨e, he, rfl⟩ := List.mem_map.mp h
    exact ⟨some e.2, he⟩
  · exact ⟨none, h⟩

theorem getPath_apply_outcome (hp : p.paths.Pairwise Path.Apart) {o : Option Value}
    (h : p.Says path o) (d : Document) : (p.apply d).getPath (Path.ofString path) = o := by
  cases o with
  | none => exact getPath_apply_unset hp h d
  | some v => exact getPath_apply_set hp h d

theorem pairwise_below (hp : p.paths.Pairwise Path.Apart) (name : String) :
    (p.below name).paths.Pairwise Path.Apart := by
  rw [paths_below, List.pairwise_map]
  refine (hp.filter _).imp_of_mem fun ha hb h => ?_
  exact h.afterFirst (of_decide_eq_true (List.mem_filter.mp ha).2)
    (of_decide_eq_true (List.mem_filter.mp hb).2)

theorem OnlyBelow.nests_apply_iff (hp : p.OnlyBelow name) {d : Document} :
    (p.apply d).Nests name ↔ d.Nests name ∨ ∃ e ∈ p.set, (Path.ofString e.1).first = name := by
  constructor
  · rintro ⟨sub, hsub⟩
    by_contra hnot
    obtain ⟨hd, hnone⟩ := not_or.mp hnot
    have hkept := (hp.get?_apply_eq_iff hd).mpr fun e he hfirst => hnone ⟨e, he, hfirst⟩
    exact hd ⟨sub, hkept.symm.trans hsub⟩
  · exact hp.nests_apply

/-- The same changes in another order. -/
structure Shuffled (p q : Patch) : Prop where
  set : p.set.Perm q.set
  unset : p.unset.Perm q.unset

namespace Shuffled

variable (h : p.Shuffled q)
include h

theorem paths : p.paths.Perm q.paths := (h.set.map _).append h.unset

theorem outcome {o : Option Value} (ho : p.Says path o) : q.Says path o := by
  cases o with
  | none => exact h.unset.mem_iff.mp ho
  | some v => exact h.set.mem_iff.mp ho

theorem below (name : String) : (p.below name).Shuffled (q.below name) where
  set := (h.set.filter _).map _
  unset := (h.unset.filter _).map _

/-- Changes at paths apart from each other come to the same in any order. -/
theorem alike_apply (hp : p.paths.Pairwise Path.Apart) (d : Document) :
    (p.apply d).Alike (q.apply d) := by
  induction p using below_induction generalizing q d with
  | empty =>
    obtain rfl : q = .empty := congr (congrArg Patch.mk h.set.nil_eq.symm) h.unset.nil_eq.symm
    exact .refl _
  | step p ih =>
    have hq : q.paths.Pairwise Path.Apart := (h.paths.pairwise_iff Path.Apart.symm).mp hp
    refine Document.alike_of_rel fun name => ?_
    by_cases hwhole : ∃ path ∈ p.paths, Path.ofString path = ⟨name, []⟩
    · obtain ⟨path, hm, hpath⟩ := hwhole
      obtain ⟨o, ho⟩ := exists_outcome hm
      have hleft := getPath_apply_outcome hp ho d
      have hright := getPath_apply_outcome hq (h.outcome ho) d
      rw [hpath] at hleft hright
      change (p.apply d).get? name = o at hleft
      change (q.apply d).get? name = o at hright
      rw [hleft, hright]
      exact rel_self .refl o
    · have hbelow : p.OnlyBelow name := .of_not_whole hwhole
      have hbelow' : q.OnlyBelow name := .of_not_whole fun ⟨path, hm, hpath⟩ =>
        hwhole ⟨path, h.paths.mem_iff.mpr hm, hpath⟩
      have hset : (∃ e ∈ p.set, (Path.ofString e.1).first = name) ↔
          ∃ e ∈ q.set, (Path.ofString e.1).first = name :=
        exists_congr fun e => and_congr_left fun _ => h.set.mem_iff
      by_cases hnests : (p.apply d).Nests name
      · have hnests' : (q.apply d).Nests name := by
          rwa [hbelow'.nests_apply_iff, ← hset, ← hbelow.nests_apply_iff]
        rw [hnests.get?_eq, hnests'.get?_eq, hbelow.attributesOf_apply,
          hbelow'.attributesOf_apply]
        exact .some (ih name (h.below name) (pairwise_below hp name) _)
      · obtain ⟨hd, hnone⟩ := not_or.mp (hbelow.nests_apply_iff.not.mp hnests)
        rw [(hbelow.get?_apply_eq_iff hd).mpr fun e he hf => hnone ⟨e, he, hf⟩,
          (hbelow'.get?_apply_eq_iff hd).mpr fun e he hf => hnone (hset.mpr ⟨e, he, hf⟩)]
        exact rel_self .refl _

end Shuffled

theorem toDocument_of_nodup (hset : (p.set.map Prod.fst).Nodup) (hunset : p.unset.Nodup) :
    p.toDocument =
      (if p.set.isEmpty then [] else [("$set", .document p.set)]) ++
        (if p.unset.isEmpty then []
          else [("$unset", .document (p.unset.map fun path => (path, .boolean true)))]) := by
  have hmarks : ((p.unset.map fun path => (path, Value.boolean true)).map Prod.fst).Nodup := by
    rw [List.map_map]
    exact (List.map_id p.unset).symm ▸ hunset
  simp only [toDocument, Document.ofList_of_nodup hset, Document.ofList_of_nodup hmarks,
    List.isEmpty_map]

/-- The changes that a sparse document stands for do not meet: no path leads through another,
nothing undefined is assigned, all of them are rendered in their order, and in any other order they
lead to the same document. -/
theorem ofDocument_free_of_conflict {s : Document} (h : s.isNamed = true) :
    let p := ofDocument s
    p.paths.Pairwise Path.Apart ∧ (∀ e ∈ p.set, e.2.Settled) ∧
      p.toDocument =
        (if p.set.isEmpty then [] else [("$set", .document p.set)]) ++
          (if p.unset.isEmpty then []
            else [("$unset", .document (p.unset.map fun path => (path, .boolean true)))]) ∧
      ∀ set unset, set.Perm p.set → unset.Perm p.unset →
        ∀ d, (apply ⟨set, unset⟩ d).Alike (p.apply d) := by
  intro p
  have hp : p.paths.Pairwise Path.Apart := pairwise_ofDocument s h
  obtain ⟨hset, hunset, -⟩ := List.pairwise_append.mp hp
  refine ⟨hp, settled_of_mem_ofDocument s, ?_, fun set unset hs hu d => ?_⟩
  · exact toDocument_of_nodup (hset.imp And.left) (hunset.imp And.left)
  · have hshuffled : Shuffled ⟨set, unset⟩ p := ⟨hs, hu⟩
    exact hshuffled.alike_apply ((hshuffled.paths.pairwise_iff Path.Apart.symm).mpr hp) d

/-- Two assignments share a document that has to be made first, and one of the lists is turned
round. -/
theorem ofDocument_free_of_conflict_film :
    let s : Document := [("director", .document [("name", .string "Scott"), ("born", .undefined),
      ("cut", .int32 2)]), ("notes", .array [.undefined, .null]), ("year", .undefined)]
    let set : List (String × Value) := [("notes", .array [.null]), ("director.cut", .int32 2),
      ("director.name", .string "Scott")]
    let unset := ["director.born", "year"]
    let d : Document := [("year", .int32 1979)]
    s.isNamed = true ∧ set.Perm (ofDocument s).set ∧ unset.Perm (ofDocument s).unset ∧
      (ofDocument s).paths.Pairwise Path.Apart ∧ (∀ e ∈ (ofDocument s).set, e.2.Settled) ∧
      (ofDocument s).toDocument =
        [("$set", .document [("director.name", .string "Scott"), ("director.cut", .int32 2),
          ("notes", .array [.null])]),
          ("$unset", .document [("director.born", .boolean true), ("year", .boolean true)])] ∧
      (apply ⟨set, unset⟩ d).Alike ((ofDocument s).apply d) ∧
      apply ⟨set, unset⟩ d = [("notes", .array [.null]),
        ("director", .document [("cut", .int32 2), ("name", .string "Scott")])] := by
  intro s set unset d
  have hs : s.isNamed = true := by decide
  have hset : set.Perm (ofDocument s).set := List.reverse_perm (ofDocument s).set
  obtain ⟨hp, hsettled, hrendered, hsame⟩ := ofDocument_free_of_conflict hs
  exact ⟨hs, hset, .refl _, hp, hsettled, hrendered, hsame set unset hset (.refl _) d, rfl⟩

end RecordStore.Patch
