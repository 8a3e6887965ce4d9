import RecordStore.Proofs.Patch.Settled
import RecordStore.Proofs.Store.Writes

namespace RecordStore

def Collections.Settled (c : Collections) : Prop := ∀ name, ∀ d ∈ c.records name, d.Settled

theorem Collections.settled_empty : Collections.empty.Settled := fun _ _ hd => nomatch hd

theorem Collections.Settled.set {c : Collections} (hc : c.Settled) {ds : List Document}
    (hds : ∀ d ∈ ds, d.Settled) (name : String) : (c.set name ds).Settled := by
  intro other d hd
  rw [records_set] at hd
  split at hd
  · exact hds d hd
  · exact hc other d hd

namespace Store

variable {s : Store Collections} {r : Request} {c after : Collections}

theorem Writes.settled (hw : s.Writes c r after) (hc : c.Settled) : after.Settled := by
  cases hw with
  | @created _ _ record _ t id hnew ht hrecord hid =>
    refine hc.set (fun d hd => ?_) _
    obtain hd | hd := List.mem_append.mp hd
    · exact hc t.collection d hd
    · obtain rfl := List.mem_singleton.mp hd
      exact record.settled_strip
  | @patched _ _ record _ t id front back q hnew ht hrecord hid ha =>
    have hold : ∀ d ∈ front ++ q :: back, d.Settled := fun d hd =>
      hc t.collection d (ha.records ▸ hd)
    obtain ⟨hfront, hrest⟩ := List.forall_mem_append.mp hold
    obtain ⟨hq, hback⟩ := List.forall_mem_cons.mp hrest
    have hpatched := Patch.settled_apply (Patch.settled_of_mem_ofDocument (record.erase id.name)) hq
    exact hc.set (List.forall_mem_append.mpr
      ⟨hfront, List.forall_mem_cons.mpr ⟨hpatched, hback⟩⟩) _
  | @deleted _ _ _ t id ht hid =>
    exact hc.set (fun d hd => hc t.collection d (List.mem_filter.mp hd).1) _

theorem settled_run (hb : s.backend = .memory) (r : Request) {session : Session Collections}
    (hc : session.contents.Settled) : (s.run r session).session.contents.Settled := by
  obtain ⟨-, hsame⟩ | ⟨-, hw⟩ := run_amounts hb r session
  · rw [hsame]
    exact hc
  · exact hw.settled hc

theorem settled_runAll (hb : s.backend = .memory) (rs : List Request)
    {session : Session Collections} (hc : session.contents.Settled) :
    (s.runAll rs session).contents.Settled := by
  induction rs generalizing session with
  | nil => exact hc
  | cons r rs ih => exact ih (settled_run hb r hc)

/-- From the empty engine on, no request puts an undefined value into a record, at whatever depth
and whatever the codec. -/
theorem runAll_stores_no_undefined (hb : s.backend = .memory) (rs : List Request) (name : String) :
    ∀ d ∈ (s.runAll rs (Session.start Collections.empty)).contents.records name,
      ¬ (Value.document d).Contains .undefined :=
  fun d hd => Value.settled_document_iff.mpr
    (settled_runAll hb rs Collections.settled_empty name d hd)

/-- Undefined values in a new record, in a list of it, and beside a removal in an update. -/
theorem runAll_stores_no_undefined_film :
    let s : Store Collections :=
      { new Backend.memory with storables := ⟨[⟨"film", "films", ["id"]⟩]⟩ }
    let rs : List Request := [
      .save "film" [("id", .int32 1), ("year", .undefined),
        ("cast", .array [.undefined, .document [("name", .string "Weaver"), ("age", .undefined)]])]
        { isNew := true },
      .save "film" [("id", .int32 1), ("director", .document [("name", .string "Scott"),
        ("born", .undefined), ("films", .array [.undefined, .int32 1979])])] {}]
    let records := (s.runAll rs (Session.start Collections.empty)).contents.records "films"
    let stored : Document :=
      [("id", .int32 1), ("cast", .array [.document [("name", .string "Weaver")]]),
        ("director", .document [("name", .string "Scott"), ("films", .array [.int32 1979])])]
    s.backend = .memory ∧ records = [stored] ∧ ¬ (Value.document stored).Contains .undefined := by
  intro s rs records stored
  have hb : s.backend = .memory := rfl
  have hrecords : records = [stored] := rfl
  have hstored : stored ∈ records := by rw [hrecords]; exact List.mem_singleton_self stored
  exact ⟨hb, hrecords, runAll_stores_no_undefined hb rs "films" stored hstored⟩

end Store

end RecordStore
