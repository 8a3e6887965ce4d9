import RecordStore.Patch
import RecordStore.Proofs.Value.Settled

namespace RecordStore

theorem Value.ne_undefined_of_not_isUndefined {v : Value} (h : ¬ v.isUndefined = true) :
    v ≠ .undefined := by
  rintro rfl
  exact h rfl

mutual

theorem Value.settled_strip (v : Value) (h : v ≠ .undefined) : v.strip.Settled := by
  cases v with
  | document d => exact Value.settled_document_iff.mpr (settled_stripEntries d)
  | array items => exact Value.settled_array_iff.mpr (settled_stripItems items)
  | _ => exact Value.IsPlain.settled ⟨fun _ h => (nomatch h), fun _ h => (nomatch h)⟩ h

theorem settled_stripItems (items : List Value) : ∀ v ∈ stripItems items, v.Settled := by
  cases items with
  | nil => exact fun _ hv => nomatch hv
  | cons v items =>
    rw [stripItems]
    split
    · exact settled_stripItems items
    · rename_i hv
      have hne := Value.ne_undefined_of_not_isUndefined hv
      exact List.forall_mem_cons.mpr ⟨Value.settled_strip v hne, settled_stripItems items⟩

theorem settled_stripEntries (entries : List (String × Value)) :
    Document.Settled (stripEntries entries) := by
  cases entries with
  | nil => exact Document.settled_nil
  | cons e entries =>
    obtain ⟨name, v⟩ := e
    rw [stripEntries]
    split
    · exact settled_stripEntries entries
    · rename_i hv
      have hne := Value.ne_undefined_of_not_isUndefined hv
      exact List.forall_mem_cons.mpr ⟨Value.settled_strip v hne, settled_stripEntries entries⟩

end

theorem Document.settled_strip (d : Document) : d.strip.Settled := settled_stripEntries d

mutual

theorem settled_of_mem_patchAt (path : String) (v : Value) :
    ∀ e ∈ (v.patchAt path).set, e.2.Settled := by
  cases v with
  | undefined => exact fun _ he => nomatch he
  | document sub =>
    rw [Value.patchAt]
    split
    · exact settled_of_mem_patchEntries path sub
    · exact List.forall_mem_singleton.mpr
        (Value.settled_document_iff.mpr (settled_stripEntries sub))
  | _ => exact List.forall_mem_singleton.mpr (Value.settled_strip _ (fun h => nomatch h))

theorem settled_of_mem_patchEntries (parent : String) (entries : List (String × Value)) :
    ∀ e ∈ (patchEntries parent entries).set, e.2.Settled := by
  cases entries with
  | nil => exact fun _ he => nomatch he
  | cons e entries =>
    obtain ⟨name, v⟩ := e
    rw [patchEntries]
    intro e he
    obtain he | he := List.mem_append.mp he
    · exact settled_of_mem_patchAt (Path.join parent name) v e he
    · exact settled_of_mem_patchEntries parent entries e he

end

namespace Patch

theorem settled_of_mem_ofDocument (d : Document) : ∀ e ∈ (ofDocument d).set, e.2.Settled :=
  settled_of_mem_patchEntries "" d

theorem settled_foldl_applySet {set : List (String × Value)} (h : ∀ e ∈ set, e.2.Settled)
    {state : Document × Bool} (hs : state.1.Settled) : (set.foldl applySet state).1.Settled := by
  induction set generalizing state with
  | nil => exact hs
  | cons e set ih =>
    obtain ⟨he, hes⟩ := List.forall_mem_cons.mp h
    exact ih hes (hs.setAt he _ _)

theorem settled_foldl_applyUnset (unset : List String) {state : Document × Bool}
    (hs : state.1.Settled) : (unset.foldl applyUnset state).1.Settled := by
  induction unset generalizing state with
  | nil => exact hs
  | cons path unset ih => exact ih (hs.unsetAt _ _)

theorem settled_apply {p : Patch} (hp : ∀ e ∈ p.set, e.2.Settled) {d : Document}
    (hd : d.Settled) : (p.apply d).Settled :=
  settled_foldl_applyUnset p.unset (settled_foldl_applySet hp hd)

end Patch

end RecordStore
