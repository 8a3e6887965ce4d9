import RecordStore.Proofs.Store.Addressing

namespace RecordStore

namespace Collections

variable {c after : Collections} {name : String} {id : Identifier}

theorem create?_eq_some {d : Document} (h : c.create? name id d = some after) :
    (c.records name).any id.matchesRecord = false ∧
      after = c.set name (c.records name ++ [d]) := by
  rw [create?] at h
  cases hany : (c.records name).any id.matchesRecord with
  | true =>
    rw [hany] at h
    cases h
  | false =>
    rw [hany] at h
    exact ⟨rfl, (Option.some.inj h).symm⟩

theorem delete?_eq_some (h : c.delete? name id = some after) :
    (c.records name).any id.matchesRecord = true ∧
      after = c.set name ((c.records name).filter fun q => !id.matchesRecord q) := by
  rw [delete?] at h
  cases hany : (c.records name).any id.matchesRecord with
  | true =>
    rw [hany] at h
    exact ⟨rfl, (Option.some.inj h).symm⟩
  | false =>
    rw [hany] at h
    cases h

structure Rewritten (c after : Collections) (name : String) (ds : List Document) : Prop where
  records : after.records name = ds
  elsewhere : ∀ other, other ≠ name → after.records? other = c.records? other

theorem rewritten_set (c : Collections) (name : String) (ds : List Document) :
    c.Rewritten (c.set name ds) name ds where
  records := by rw [records_set, if_pos rfl]
  elsewhere other hother := by rw [records?_set, if_neg hother]

end Collections

namespace Store

/-- The writes that a request answered by true can stand for. -/
inductive Writes (s : Store Collections) (c : Collections) : Request → Collections → Prop
  | created {storable : String} {d record : Document} {o : SaveOptions} {t : Storable}
      {id : Identifier} (hnew : o.isNew = true) (ht : s.storables.get storable = .ok t)
      (hrecord : s.codec.encode d = .ok record)
      (hid : t.identifierOf record = .ok [(id.name, id.value)]) :
      Writes s c (.save storable d o)
        (c.set t.collection (c.records t.collection ++ [record.strip]))
  | patched {storable : String} {d record : Document} {o : SaveOptions} {t : Storable}
      {id : Identifier} {front back : List Document} {r : Document} (hnew : o.isNew = false)
      (ht : s.storables.get storable = .ok t) (hrecord : s.codec.encode d = .ok record)
      (hid : t.identifierOf record = .ok [(id.name, id.value)])
      (ha : id.Addresses (c.records t.collection) front r back) :
      Writes s c (.save storable d o)
        (c.set t.collection
          (front ++ (Patch.ofDocument (record.erase id.name)).apply r :: back))
  | deleted {storable : String} {d : Document} {o : DeleteOptions} {t : Storable}
      {id : Identifier} (ht : s.storables.get storable = .ok t)
      (hid : s.identify t d = .ok [(id.name, id.value)]) :
      Writes s c (.delete storable d o)
        (c.set t.collection ((c.records t.collection).filter fun q => !id.matchesRecord q))

/-- An operation that answers true leaves contents of which `W` holds. However else it ends, the
contents are `c`. -/
inductive Commits (c : Collections) (W : Collections → Prop) :
    EStateM.Result StoreError (Session Collections) Bool → Prop
  | done {after : Session Collections} (h : W after.contents) : Commits c W (.ok true after)
  | refused {after : Session Collections} (h : after.contents = c) : Commits c W (.ok false after)
  | failed {e : StoreError} {after : Session Collections} (h : after.contents = c) :
      Commits c W (.error e after)

variable {α : Type} {s : Store Collections} {session : Session Collections}
  {W : Collections → Prop}

theorem commits_lift {y : Except StoreError α} {f : α → StoreM Collections Bool}
    (h : ∀ a, y = .ok a → Commits session.contents W (f a session)) :
    Commits session.contents W ((liftExcept y >>= f) session) := by
  cases hy : y with
  | error e =>
    rw [bind_of_error (liftExcept_of_error rfl)]
    exact .failed rfl
  | ok a =>
    rw [bind_of_ok (liftExcept_of_ok rfl)]
    exact h a hy

theorem commits_written {c? : Option Collections} (h : ∀ c, c? = some c → W c) (fails : Bool)
    (e : StoreError) (message : Bool → LogRecord) :
    Commits session.contents W (written c? fails e message session) := by
  cases c? with
  | some c => exact .done (h c rfl)
  | none =>
    cases fails with
    | true => exact .failed rfl
    | false => exact .refused rfl

theorem save_commits (hb : s.backend = .memory) (storable : String) (d : Document)
    (o : SaveOptions) (session : Session Collections) :
    Commits session.contents (s.Writes session.contents (.save storable d o))
      (s.save storable d o session) := by
  refine commits_lift fun flags _ => commits_lift fun t ht => commits_lift fun record hrecord =>
    commits_lift fun identifier hid => ?_
  obtain ⟨id, rfl, -⟩ := Storable.identifierOf_eq_ok hid
  cases hnew : o.isNew with
  | true =>
    rw [if_pos rfl, saveNew_eq hb]
    refine commits_written (fun c hc => ?_) _ _ _
    obtain ⟨-, rfl⟩ := Collections.create?_eq_some hc
    exact .created hnew ht hrecord hid
  | false =>
    rw [if_neg Bool.false_ne_true, saveExisting_eq hb]
    refine commits_written (fun c hc => ?_) _ _ _
    rw [Collections.update?] at hc
    obtain habsent | ⟨front, r, back, ha⟩ :=
      id.absent_or_addresses (session.contents.records t.collection)
    · rw [Identifier.changeFirst_of_absent habsent] at hc
      cases hc
    · rw [ha.changeFirst_eq] at hc
      obtain rfl := Option.some.inj hc
      exact .patched hnew ht hrecord hid ha

theorem delete_commits (hb : s.backend = .memory) (storable : String) (d : Document)
    (o : DeleteOptions) (session : Session Collections) :
    Commits session.contents (s.Writes session.contents (.delete storable d o))
      (s.delete storable d o session) := by
  by_cases h : ∃ (t : Storable) (id : Identifier), s.storables.get storable = .ok t ∧
      s.identify t d = .ok [(id.name, id.value)]
  · obtain ⟨t, id, ht, hid⟩ := h
    rw [delete_eq hb ht hid]
    refine commits_written (fun c hc => ?_) _ _ _
    obtain ⟨-, rfl⟩ := Collections.delete?_eq_some hc
    exact .deleted ht hid
  · -- the engine refuses what is no identifier before it looks at any record
    refine commits_lift fun t ht => commits_lift fun identifier hidentifier => ?_
    have hnone : Identifier.ofDocument? identifier = none := by
      cases hid : Identifier.ofDocument? identifier with
      | none => rfl
      | some id =>
        obtain rfl := Identifier.eq_of_ofDocument? hid
        exact absurd ⟨t, id, ht, hidentifier⟩ h
    rw [hb]
    obtain ⟨log, hcall⟩ : ∃ log, call "delete" t.collection
        (Backend.memory.delete t.collection identifier) session =
        .error _ ⟨session.contents, log⟩ := call_malformed hnone _ _ _ _
    rw [bind_of_error hcall]
    exact .failed rfl

/-- A request that was answered by true made the change `W`, and any other left the contents. -/
def Amounts (session : Session Collections) (W : Collections → Prop)
    (outcome : Outcome Collections) : Prop :=
  outcome.result ≠ .ok (.flag true) ∧ outcome.session.contents = session.contents ∨
    outcome.result = .ok (.flag true) ∧ W outcome.session.contents

theorem amounts_of_reads {x : StoreM Collections α} {y : Except StoreError α}
    (hx : Reads session.contents x y) {r : Request} {g : α → Answer} (hr : s.answer r = g <$> x)
    (hg : ∀ a, g a ≠ .flag true) : Amounts session W (s.run r session) := by
  obtain ⟨after, hrun⟩ := hx.answers hr session.log
  have hsession : s.run r session = ⟨g <$> y, ⟨session.contents, after⟩⟩ := hrun
  have hy : g <$> y ≠ .ok (.flag true) := by
    cases y with
    | error e => exact fun h => nomatch h
    | ok a => exact fun h => hg a (Except.ok.inj h)
  rw [hsession]
  exact .inl ⟨hy, rfl⟩

theorem Commits.amounts {x : StoreM Collections Bool} (h : Commits session.contents W (x session))
    {r : Request} (hr : s.answer r = .flag <$> x) : Amounts session W (s.run r session) := by
  rw [run, hr]
  generalize hx : x session = result at h
  cases h with
  | done h =>
    rw [map_of_ok hx]
    exact .inr ⟨rfl, h⟩
  | refused h =>
    rw [map_of_ok hx]
    refine .inl ⟨fun htrue => ?_, h⟩
    cases htrue
  | failed h =>
    rw [map_of_error hx]
    refine .inl ⟨fun htrue => ?_, h⟩
    cases htrue

/-- A request leaves the contents as they are, or is answered by true and has made one of the
writes. -/
theorem run_amounts (hb : s.backend = .memory) (r : Request) (session : Session Collections) :
    Amounts session (s.Writes session.contents r) (s.run r session) := by
  cases r with
  | load storable d o =>
    exact amounts_of_reads (reads_load hb storable d o) (g := .record) rfl fun _ h => nomatch h
  | save storable d o => exact (save_commits hb storable d o session).amounts rfl
  | delete storable d o => exact (delete_commits hb storable d o session).amounts rfl
  | find storable query o =>
    exact amounts_of_reads (reads_find hb storable query o) (g := .records) rfl
      fun _ h => nomatch h
  | count storable query =>
    exact amounts_of_reads (reads_count hb storable query) (g := .number) rfl
      fun _ h => nomatch h

/-- Whatever the codec does, only a save or a deletion answered by true changes the contents. A new
record is added at the end of its collection, a save over one that exists changes the first record
with the identifier in its place, a deletion leaves the others as they are and in their order, and
no other collection changes or comes into being. -/
theorem run_unchanged_or_local (hb : s.backend = .memory) (r : Request)
    (session : Session Collections) :
    let before := session.contents
    let outcome := s.run r session
    let after := outcome.session.contents
    (outcome.result ≠ .ok (.flag true) → after = before) ∧
      match r with
      | .load _ _ _ | .find _ _ _ | .count _ _ => after = before
      | .save storable d o =>
        outcome.result = .ok (.flag true) →
          ∃ (t : Storable) (record : Document) (id : Identifier),
            s.storables.get storable = .ok t ∧ s.codec.encode d = .ok record ∧
              t.identifierOf record = .ok [(id.name, id.value)] ∧
              if o.isNew then
                before.Rewritten after t.collection
                  (before.records t.collection ++ [record.strip])
              else
                ∃ front q back, id.Addresses (before.records t.collection) front q back ∧
                  before.Rewritten after t.collection
                    (front ++ (Patch.ofDocument (record.erase id.name)).apply q :: back)
      | .delete storable d _ =>
        outcome.result = .ok (.flag true) →
          ∃ (t : Storable) (id : Identifier),
            s.storables.get storable = .ok t ∧ s.identify t d = .ok [(id.name, id.value)] ∧
              before.Rewritten after t.collection
                ((before.records t.collection).filter fun q => !id.matchesRecord q) := by
  intro before outcome after
  obtain ⟨hne, hsame⟩ | ⟨htrue, hw⟩ := run_amounts hb r session
  · refine ⟨fun _ => hsame, ?_⟩
    cases r with
    | load | find | count => exact hsame
    | save | delete => exact fun h => absurd h hne
  · refine ⟨fun h => absurd htrue h, ?_⟩
    have hw : s.Writes before r after := hw
    clear_value after
    cases hw with
    | @created _ _ record _ t id hnew ht hrecord hid =>
      refine fun _ => ⟨t, record, id, ht, hrecord, hid, ?_⟩
      rw [if_pos hnew]
      exact before.rewritten_set _ _
    | @patched _ _ record _ t id front back q hnew ht hrecord hid ha =>
      refine fun _ => ⟨t, record, id, ht, hrecord, hid, ?_⟩
      rw [if_neg (Bool.eq_false_iff.mp hnew)]
      exact ⟨front, q, back, ha, before.rewritten_set _ _⟩
    | @deleted _ _ _ t id ht hid =>
      exact fun _ => ⟨t, id, ht, hid, before.rewritten_set _ _⟩

/-- With a codec that keeps years under another name: a taken slug, an update of the first of two
records that share one, and the deletion of both. -/
theorem run_unchanged_or_local_films :
    let s : Store Collections :=
      { new Backend.memory with
        codec := .rename "year" "released"
        storables := ⟨[⟨"film", "films", ["id", "slug"]⟩]⟩ }
    let rs : List Request := [
      .save "film" [("id", .int32 1), ("slug", .string "alien")] { isNew := true },
      .save "film" [("id", .int32 2), ("slug", .string "heat")] { isNew := true },
      .save "film" [("id", .int32 3), ("slug", .string "heat")] { isNew := true }]
    let session := s.runAll rs (Session.start Collections.empty)
    let heat : Document := [("slug", .string "heat"), ("year", .int32 1995)]
    let after (r : Request) := (s.run r session).session.contents
    s.backend = .memory ∧ after (.save "film" heat { isNew := true }) = session.contents ∧
      (after (.save "film" heat {})).records "films" =
        [[("id", .int32 1), ("slug", .string "alien")],
          [("id", .int32 2), ("slug", .string "heat"), ("released", .int32 1995)],
          [("id", .int32 3), ("slug", .string "heat")]] ∧
      (after (.delete "film" heat {})).records "films" =
        [[("id", .int32 1), ("slug", .string "alien")]] := by
  intro s rs session heat after
  have hb : s.backend = .memory := rfl
  have hsame := (run_unchanged_or_local hb (.save "film" heat { isNew := true }) session).1
  have hsave := (run_unchanged_or_local hb (.save "film" heat {}) session).2 rfl
  have hdelete := (run_unchanged_or_local hb (.delete "film" heat {}) session).2 rfl
  refine ⟨hb, hsame fun h => (nomatch h), ?_, ?_⟩
  · obtain ⟨t, record, id, ht, hrecord, hid, front, q, back, ha, hw⟩ := hsave
    obtain rfl : (⟨"film", "films", ["id", "slug"]⟩ : Storable) = t := Except.ok.inj ht
    obtain rfl : [("slug", .string "heat"), ("released", .int32 1995)] = record :=
      Except.ok.inj hrecord
    have hid : [("slug", Value.string "heat")] = _ := Except.ok.inj hid
    obtain rfl := Identifier.eq_of_entry hid
    have hfirst : some _ = some (front ++ _ :: back) :=
      ha.changeFirst_eq (Patch.ofDocument [("released", .int32 1995)]).apply
    exact hw.records.trans (Option.some.inj hfirst).symm
  · obtain ⟨t, id, ht, hid, hw⟩ := hdelete
    obtain rfl : (⟨"film", "films", ["id", "slug"]⟩ : Storable) = t := Except.ok.inj ht
    have hid : [("slug", Value.string "heat")] = _ := Except.ok.inj hid
    obtain rfl := Identifier.eq_of_entry hid
    exact hw.records

end Store

end RecordStore
