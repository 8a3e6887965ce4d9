import Mathlib.Algebra.Order.BigOperators.Group.List
import Mathlib.Algebra.Order.Group.Nat
import Mathlib.Data.List.Nodup
import RecordStore.Proofs.Patch.Attributes
import RecordStore.Proofs.Patch.Stripped

namespace RecordStore

namespace Patch

theorem keys_apply_apply (p : Patch) {d : Document} (hd : d.keys.Nodup) :
    (p.apply (p.apply d)).keys = (p.apply d).keys := by
  let keep (name : String) : Bool := decide (∀ path ∈ p.unset, Path.ofString path ≠ ⟨name, []⟩)
  have hkeys (d : Document) :
      (p.apply d).keys = (p.set.foldl applySet (d, false)).1.keys.filter keep :=
    keys_foldl_applyUnset p.unset _
  obtain ⟨more, hmore, hfirst⟩ := keys_foldl_applySet p.set (p.apply d, false)
  have hnodup : ((p.apply d).keys ++ more).Nodup := by
    rw [← hmore]
    exact nodup_keys_foldl_applySet p.set (nodup_keys_apply hd p)
  have hkept : (p.apply d).keys.filter keep = (p.apply d).keys := by
    rw [hkeys, List.filter_filter]
    simp only [Bool.and_self]
  have hgone : more.filter keep = [] := by
    refine List.filter_eq_nil_iff.mpr fun name hm hkeep => ?_
    obtain ⟨e, he, rfl⟩ := hfirst name hm
    -- the first time, the name was there as well, and nothing removed it
    have hthere : (Path.ofString e.1).first ∈ (p.apply d).keys := by
      rw [hkeys]
      exact List.mem_filter.mpr ⟨first_mem_keys_foldl_applySet he _, hkeep⟩
    exact (List.disjoint_of_nodup_append hnodup) hthere hm
  rw [hkeys, hmore, List.filter_append, hkept, hgone, List.append_nil]

theorem apply_apply_of_length (n : Nat) {p : Patch}
    (hp : ∀ path ∈ p.paths, (Path.ofString path).names.length ≤ n) {d : Document}
    (hd : (Value.document d).NamesOnce) : p.apply (p.apply d) = p.apply d := by
  induction n generalizing p d with
  | zero =>
    -- no path is without names
    have hnone : ∀ path, path ∉ p.paths := fun path hm => absurd (hp path hm) (by simp [Path.names])
    exact apply_of_getPath
      (fun e he => absurd (List.mem_append_left _ (List.mem_map_of_mem he)) (hnone e.1))
      (fun path hm => absurd (List.mem_append_right _ hm) (hnone path))
  | succ n ih =>
    obtain ⟨hkeys, hparts⟩ := Value.namesOnce_document_iff.mp hd
    refine Document.eq_of_get? (keys_apply_apply p hkeys)
      (nodup_keys_apply (nodup_keys_apply hkeys p) p) fun name => ?_
    by_cases hwhole : ∃ path ∈ p.paths, Path.ofString path = ⟨name, []⟩
    · exact get?_apply_of_whole hwhole (p.apply d) d
    · have hbelow : p.OnlyBelow name := .of_not_whole hwhole
      by_cases hnests : (p.apply d).Nests name
      · have hnests' := hbelow.nests_apply (.inl hnests)
        have hinside : (Value.document (Document.attributesOf (d.get? name))).NamesOnce :=
          hd.attributesOf name
        rw [hnests'.get?_eq, hnests.get?_eq, hbelow.attributesOf_apply, hbelow.attributesOf_apply,
          ih (length_names_of_mem_below hp) hinside]
      · have hnone : ∀ e ∈ p.set, (Path.ofString e.1).first ≠ name := fun e he hfirst =>
          hnests (hbelow.nests_apply (.inr ⟨e, he, hfirst⟩))
        exact (hbelow.get?_apply_eq_iff hnests).mpr hnone

/-- Applying a patch again leaves the document exactly as it is. Its paths may come twice, and lead
through each other. -/
theorem apply_apply (p : Patch) {d : Document} (hd : (Value.document d).NamesOnce) :
    p.apply (p.apply d) = p.apply d := by
  refine apply_apply_of_length
    (p.paths.map fun path => (Path.ofString path).names.length).sum (fun path hm => ?_) hd
  exact List.single_le_sum (fun _ _ => Nat.zero_le _) _ (List.mem_map_of_mem hm)

/-- A document gives way to a text and the text to a document, one removal takes out what an
assignment has made, and another one leaves an empty document. -/
theorem apply_apply_film :
    let p : Patch := ⟨[("cast.lead", .string "Weaver"), ("cast", .string "unknown"),
      ("cast.lead.name", .string "Weaver"), ("year", .int32 1979), ("cut.length", .int32 117)],
      ["cut", "cast.lead.name"]⟩
    let d : Document := [("cut", .null), ("cast", .document [("size", .int32 7)]), ("id", .int32 1)]
    (Value.document d).NamesOnce ∧ p.apply (p.apply d) = p.apply d ∧
      p.apply d = [("cast", .document [("lead", .document [])]), ("id", .int32 1),
        ("year", .int32 1979)] := by
  intro p d
  have hd : (Value.document d).NamesOnce := by decide
  have hresult : p.apply d = [("cast", .document [("lead", .document [])]), ("id", .int32 1),
      ("year", .int32 1979)] := by
    simp only [p, d]
    rfl
  exact ⟨hd, apply_apply p hd, hresult⟩

end Patch

end RecordStore
