import RecordStore.Proofs.Patch.Below
import RecordStore.Proofs.Store.KeyMap
import RecordStore.Proofs.Store.Operations

namespace RecordStore

namespace Storable

theorem firstIdentifier?_eq_some {d e : Document} {names : List String}
    (h : firstIdentifier? d names = some e) :
    ∃ id : Identifier, e = [(id.name, id.value)] ∧ id.name ∈ names ∧
      d.get? id.name = some id.value := by
  induction names with
  | nil => cases h
  | cons name names ih =>
    have hlater (h : firstIdentifier? d names = some e) :
        ∃ id : Identifier, e = [(id.name, id.value)] ∧ id.name ∈ name :: names ∧
          d.get? id.name = some id.value := by
      obtain ⟨id, he, hm, hv⟩ := ih h
      exact ⟨id, he, List.mem_cons_of_mem name hm, hv⟩
    rw [firstIdentifier?] at h
    split at h
    · split at h
      · exact ⟨⟨name, _⟩, (Option.some.inj h).symm, List.mem_cons_self, ‹_›⟩
      · exact hlater h
    · exact hlater h

theorem identifierOf_eq_ok {t : Storable} {d e : Document} (h : t.identifierOf d = .ok e) :
    ∃ id : Identifier, e = [(id.name, id.value)] ∧ id.name ∈ t.identifiers ∧
      d.get? id.name = some id.value := by
  unfold identifierOf at h
  split at h
  · obtain rfl := Except.ok.inj h
    exact firstIdentifier?_eq_some ‹_›
  · cases h

end Storable

namespace Identifier

/-- The records before the first one that has the identifier, that record, and those after it. -/
structure Addresses (id : Identifier) (ds front : List Document) (r : Document)
    (back : List Document) : Prop where
  records : ds = front ++ r :: back
  passed : ∀ q ∈ front, id.matchesRecord q = false
  found : id.matchesRecord r = true

variable {id : Identifier} {ds front back : List Document} {r : Document}

theorem absent_or_addresses (id : Identifier) (ds : List Document) :
    ds.any id.matchesRecord = false ∨ ∃ front r back, id.Addresses ds front r back := by
  cases h : ds.find? id.matchesRecord with
  | none =>
    refine .inl (List.any_eq_false.mpr fun q hq => ?_)
    exact List.find?_eq_none.mp h q hq
  | some r =>
    obtain ⟨hfound, front, back, hds, hpassed⟩ := List.find?_eq_some_iff_append.mp h
    refine .inr ⟨front, r, back, hds, fun q hq => ?_, hfound⟩
    exact Bool.not_eq_eq_eq_not.mp (hpassed q hq)

theorem addresses_append (h : ds.any id.matchesRecord = false) (hr : id.matchesRecord r = true) :
    id.Addresses (ds ++ [r]) ds r [] where
  records := rfl
  passed q hq := Bool.eq_false_iff.mpr (List.any_eq_false.mp h q hq)
  found := hr

theorem Addresses.find?_eq (h : id.Addresses ds front r back) :
    ds.find? id.matchesRecord = some r := by
  refine List.find?_eq_some_iff_append.mpr ⟨h.found, front, back, h.records, fun q hq => ?_⟩
  rw [h.passed q hq]
  rfl

theorem Addresses.any_eq (h : id.Addresses ds front r back) :
    ds.any id.matchesRecord = true := by
  refine List.any_eq_true.mpr ⟨r, ?_, h.found⟩
  rw [h.records]
  exact List.mem_append_right front List.mem_cons_self

theorem Addresses.changeFirst_eq (h : id.Addresses ds front r back) (f : Document → Document) :
    Collections.changeFirst id.matchesRecord f ds = some (front ++ f r :: back) := by
  obtain ⟨rfl, hpassed, hfound⟩ := h
  induction front with
  | nil => rw [List.nil_append, Collections.changeFirst, if_pos hfound, List.nil_append]
  | cons q front ih =>
    obtain ⟨hq, hqs⟩ := List.forall_mem_cons.mp hpassed
    rw [List.cons_append, Collections.changeFirst, hq, if_neg Bool.false_ne_true, ih hqs]
    rfl

theorem changeFirst_of_absent (h : ds.any id.matchesRecord = false)
    (f : Document → Document) : Collections.changeFirst id.matchesRecord f ds = none := by
  induction ds with
  | nil => rfl
  | cons d ds ih =>
    rw [List.any_cons, Bool.or_eq_false_iff] at h
    rw [Collections.changeFirst, h.1, if_neg Bool.false_ne_true, ih h.2]
    rfl

theorem Addresses.filter_eq (h : id.Addresses ds front r back) :
    (ds.filter fun d => !id.matchesRecord d) =
      front ++ back.filter fun d => !id.matchesRecord d := by
  have hfront : (front.filter fun d => !id.matchesRecord d) = front := by
    refine List.filter_eq_self.mpr fun q hq => ?_
    rw [h.passed q hq]
    rfl
  have hr : ¬ (!id.matchesRecord r) = true := by simp [h.found]
  rw [h.records, List.filter_append, hfront]
  exact congrArg (front ++ ·) (List.filter_cons_of_neg hr)

theorem append_filter_eq_iff :
    (front ++ back.filter fun d => !id.matchesRecord d) = front ++ back ↔
      ∀ q ∈ back, id.matchesRecord q = false := by
  rw [List.append_cancel_left_eq, List.filter_eq_self]
  simp only [Bool.not_eq_true']

theorem Addresses.replace (h : id.Addresses ds front r back) {r' : Document}
    (hr : r'.get? id.name = r.get? id.name) : id.Addresses (front ++ r' :: back) front r' back := by
  refine ⟨rfl, h.passed, ?_⟩
  rw [← h.found, matchesRecord, matchesRecord, hr]

end Identifier

namespace Store

variable {σ α : Type}

/-- A document that stands for an identifier of a registered type. -/
structure Designates (s : Store σ) (storable : String) (d : Document) (t : Storable)
    (id : Identifier) : Prop where
  storable : s.storables.get storable = .ok t
  identifier : t.identifierOf d = .ok [(id.name, id.value)]

variable {s : Store Collections} {storable : String} {d : Document} {t : Storable}
  {id : Identifier} {session after : Session Collections} {front back : List Document}
  {r : Document}

/-- Whatever comes after the identification of a document comes to an end only if there is an
identifier. -/
theorem InMemory.exists_designates (hs : s.InMemory)
    {rest : Storable → Document → StoreM Collections α} {a : α}
    (h : (do
      let t ← liftExcept (s.storables.get storable)
      let identifier ← liftExcept (s.identify t d)
      rest t identifier : StoreM Collections α) session = .ok a after) :
    ∃ t id, s.Designates storable d t id := by
  cases hget : s.storables.get storable with
  | error e =>
    rw [bind_of_error (liftExcept_of_error hget)] at h
    cases h
  | ok t =>
    cases hid : t.identifierOf d with
    | error e =>
      have hnone : (do (← s.storables.get storable).identifierOf d) = Except.error e := by
        rw [hget]
        exact hid
      rw [hs.bind_unidentified hnone] at h
      cases h
    | ok e =>
      obtain ⟨id, rfl, -⟩ := Storable.identifierOf_eq_ok hid
      exact ⟨t, id, hget, hid⟩

theorem Designates.identify_eq (hd : s.Designates storable d t id) (hs : s.InMemory) :
    s.identify t d = .ok [(id.name, id.value)] := (hs.identify_eq t d).trans hd.identifier

theorem Designates.mem_identifiers (hd : s.Designates storable d t id) :
    id.name ∈ t.identifiers := by
  obtain ⟨other, he, hm, -⟩ := Storable.identifierOf_eq_ok hd.identifier
  obtain rfl : id = other := Identifier.eq_of_entry he
  exact hm

theorem Designates.get?_eq (hd : s.Designates storable d t id) :
    d.get? id.name = some id.value := by
  obtain ⟨other, he, -, hv⟩ := Storable.identifierOf_eq_ok hd.identifier
  obtain rfl : id = other := Identifier.eq_of_entry he
  exact hv

theorem written_none_ne {fails : Bool} {e : StoreError} {record : Bool → LogRecord} :
    written none fails e record session ≠ .ok true after := by
  cases fails <;> exact fun h => nomatch h

theorem InMemory.load_addressed (hs : s.InMemory) (hd : s.Designates storable d t id)
    (ha : id.Addresses (session.contents.records t.collection) front r back) (o : LoadOptions) :
    s.load storable d o session = .ok (some (t.shown o.selector r)) session := by
  rw [hs.load_eq hd.storable hd.identifier o, Collections.read?, ha.find?_eq]

theorem InMemory.save_existing_eq (hs : s.InMemory) (hd : s.Designates storable d t id)
    {o : SaveOptions} {flags : SaveFlags} (ho : o.resolve = .ok flags) (hnew : o.isNew = false) :
    s.save storable d o session =
      written (session.contents.update? t.collection id (Patch.ofDocument (d.erase id.name)))
        flags.throwIfMissing (.missingFromStore t.collection (Document.text [(id.name, id.value)]))
        (updateRecord t.collection [(id.name, id.value)] (Patch.ofDocument (d.erase id.name)))
        session := by
  rw [save_of_identified ho hd.storable (hs.encode_eq d) hd.identifier, hnew,
    if_neg Bool.false_ne_true]
  exact saveExisting_eq hs.backend t id.name id.value d flags.throwIfMissing session

theorem InMemory.save_new_eq (hs : s.InMemory) (hd : s.Designates storable d t id)
    {o : SaveOptions} {flags : SaveFlags} (ho : o.resolve = .ok flags) (hnew : o.isNew = true) :
    s.save storable d o session =
      written (session.contents.create? t.collection id d.strip) flags.throwIfExists
        (.alreadyExistsInStore t.collection (Document.text [(id.name, id.value)]))
        (createRecord t.collection [(id.name, id.value)]) session := by
  rw [save_of_identified ho hd.storable (hs.encode_eq d) hd.identifier, hnew, if_pos rfl]
  exact saveNew_eq hs.backend t id.name id.value d flags.throwIfExists session

theorem InMemory.save_addressed (hs : s.InMemory) (hd : s.Designates storable d t id)
    (ha : id.Addresses (session.contents.records t.collection) front r back) {o : SaveOptions}
    {flags : SaveFlags} (ho : o.resolve = .ok flags) (hnew : o.isNew = false) :
    ∃ log, s.save storable d o session =
      .ok true ⟨session.contents.set t.collection
        (front ++ (Patch.ofDocument (d.erase id.name)).apply r :: back), log⟩ := by
  rw [hs.save_existing_eq hd ho hnew, Collections.update?, ha.changeFirst_eq]
  exact ⟨_, rfl⟩

theorem InMemory.delete_addressed (hs : s.InMemory) (hd : s.Designates storable d t id)
    (ha : id.Addresses (session.contents.records t.collection) front r back)
    (o : DeleteOptions) :
    ∃ log, s.delete storable d o session =
      .ok true ⟨session.contents.set t.collection
        (front ++ back.filter fun q => !id.matchesRecord q), log⟩ := by
  have hdel : session.contents.delete? t.collection id = some _ := if_pos ha.any_eq
  rw [delete_eq hs.backend hd.storable (hd.identify_eq hs), hdel, ha.filter_eq]
  exact ⟨_, rfl⟩

theorem InMemory.exists_addressed_of_save (hs : s.InMemory) {o : SaveOptions}
    (hnew : o.isNew = false) (h : s.save storable d o session = .ok true after) :
    ∃ t id front r back, s.Designates storable d t id ∧
      id.Addresses (session.contents.records t.collection) front r back ∧
      after.contents = session.contents.set t.collection
        (front ++ (Patch.ofDocument (d.erase id.name)).apply r :: back) := by
  cases ho : o.resolve with
  | error e =>
    rw [save, bind_of_error (liftExcept_of_error ho)] at h
    cases h
  | ok flags =>
    obtain ⟨t, id, hd⟩ := hs.exists_designates ((hs.save_eq ho session).symm.trans h)
    obtain habsent | ⟨front, r, back, ha⟩ :=
      id.absent_or_addresses (session.contents.records t.collection)
    · rw [hs.save_existing_eq hd ho hnew, Collections.update?,
        Identifier.changeFirst_of_absent habsent] at h
      exact absurd h written_none_ne
    · obtain ⟨log, hlog⟩ := hs.save_addressed hd ha ho hnew
      rw [hlog] at h
      cases h
      exact ⟨t, id, front, r, back, hd, ha, rfl⟩

theorem InMemory.exists_addressed_of_delete (hs : s.InMemory) {o : DeleteOptions}
    (h : s.delete storable d o session = .ok true after) :
    ∃ t id front r back, s.Designates storable d t id ∧
      id.Addresses (session.contents.records t.collection) front r back ∧
      after.contents = session.contents.set t.collection
        (front ++ back.filter fun q => !id.matchesRecord q) := by
  obtain ⟨t, id, hd⟩ := hs.exists_designates h
  obtain habsent | ⟨front, r, back, ha⟩ :=
    id.absent_or_addresses (session.contents.records t.collection)
  · have hdel : session.contents.delete? t.collection id = none :=
      if_neg (Bool.eq_false_iff.mp habsent)
    rw [delete_eq hs.backend hd.storable (hd.identify_eq hs), hdel] at h
    exact absurd h written_none_ne
  · obtain ⟨log, hlog⟩ := hs.delete_addressed hd ha o
    rw [hlog] at h
    cases h
    exact ⟨t, id, front, r, back, hd, ha, rfl⟩

/-- A deletion that takes effect removes the record that is loaded, and that an update patches in
its place. With it go the later records that have the identifier, so that it is the only one to go
if none of those has. -/
theorem InMemory.delete_removes_addressed (hs : s.InMemory) {o : DeleteOptions}
    (h : s.delete storable d o session = .ok true after) :
    ∃ t id front r back, s.Designates storable d t id ∧
      id.Addresses (session.contents.records t.collection) front r back ∧
      (∀ e lo, s.Designates storable e t id →
        s.load storable e lo session = .ok (some (t.shown lo.selector r)) session) ∧
      (∀ e so flags, s.Designates storable e t id → so.resolve = .ok flags → so.isNew = false →
        ∃ next, s.save storable e so session = .ok true next ∧
          next.contents.records t.collection =
            front ++ (Patch.ofDocument (e.erase id.name)).apply r :: back) ∧
      after.contents.records t.collection =
        front ++ (back.filter fun q => !id.matchesRecord q) ∧
      (after.contents.records t.collection = front ++ back ↔
        ∀ q ∈ back, id.matchesRecord q = false) ∧
      ∀ other, other ≠ t.collection →
        after.contents.records other = session.contents.records other := by
  obtain ⟨t, id, front, r, back, hd, ha, hafter⟩ := hs.exists_addressed_of_delete h
  have hrecords : after.contents.records t.collection =
      front ++ back.filter fun q => !id.matchesRecord q := by
    rw [hafter, Collections.records_set, if_pos rfl]
  refine ⟨t, id, front, r, back, hd, ha, ?_, ?_, hrecords, ?_, ?_⟩
  · exact fun e lo he => hs.load_addressed he ha lo
  · intro e so flags he hso hnew
    obtain ⟨log, hlog⟩ := hs.save_addressed he ha hso hnew
    refine ⟨_, hlog, ?_⟩
    rw [Collections.records_set, if_pos rfl]
  · rw [hrecords]
    exact Identifier.append_filter_eq_iff
  · intro other hother
    rw [hafter, Collections.records_set, if_neg hother]

/-- Two films of one slug: the first is loaded, and both go. -/
theorem InMemory.delete_removes_addressed_films :
    let s : Store Collections :=
      { new Backend.memory with storables := ⟨[⟨"film", "films", ["id", "slug"]⟩]⟩ }
    let rs : List Request := [
      .save "film" [("id", .int32 1), ("slug", .string "alien")] { isNew := true },
      .save "film" [("id", .int32 2), ("slug", .string "heat")] { isNew := true },
      .save "film" [("id", .int32 3), ("slug", .string "heat")] { isNew := true }]
    let session := s.runAll rs (Session.start Collections.empty)
    s.InMemory ∧
      ∃ after, s.delete "film" [("slug", .string "heat")] {} session = .ok true after ∧
        s.load "film" [("slug", .string "heat")] {} session =
          .ok (some [("id", .int32 2), ("slug", .string "heat")]) session ∧
        after.contents.records "films" = [[("id", .int32 1), ("slug", .string "alien")]] := by
  intro s rs session
  have hs : s.InMemory := ⟨rfl, rfl⟩
  have h : s.delete "film" [("slug", .string "heat")] {} session = .ok true ⟨_, _⟩ := rfl
  obtain ⟨t, id, front, r, back, hd, ha, hload, -⟩ := hs.delete_removes_addressed h
  obtain rfl : (⟨"film", "films", ["id", "slug"]⟩ : Storable) = t := Except.ok.inj hd.storable
  have hid : [("slug", Value.string "heat")] = [(id.name, id.value)] :=
    Except.ok.inj hd.identifier
  obtain rfl : (⟨"slug", .string "heat"⟩ : Identifier) = id := by
    cases id
    cases hid
    rfl
  obtain rfl : [("id", .int32 2), ("slug", .string "heat")] = r := Option.some.inj ha.find?_eq
  exact ⟨hs, _, h, hload _ {} hd, rfl⟩

/-- Creating a record looks only at the identifier it is given, so that a second one can be
shared. -/
theorem InMemory.delete_removes_two :
    ¬ ∀ (s : Store Collections) (rs : List Request) (storable : String) (d : Document)
      (o : DeleteOptions) (t : Storable) (after : Session Collections),
      let session := s.runAll rs (Session.start Collections.empty)
      s.InMemory → s.storables.get storable = .ok t →
        s.delete storable d o session = .ok true after →
        after.contents.size t.collection + 1 = session.contents.size t.collection := by
  intro h
  have hsize := h
    { new Backend.memory with storables := ⟨[⟨"film", "films", ["id", "slug"]⟩]⟩ }
    [.save "film" [("id", .int32 1), ("slug", .string "heat")] { isNew := true },
      .save "film" [("id", .int32 2), ("slug", .string "heat")] { isNew := true }]
    "film" [("slug", .string "heat")] {} ⟨"film", "films", ["id", "slug"]⟩ ⟨_, _⟩ ⟨rfl, rfl⟩ rfl rfl
  exact absurd hsize (by decide)

/-- An update that takes effect patches one record in its place, and the record is still found if
its identifying attribute is as before. It is unless a path of the patch begins with that
attribute; if it holds no document, an assignment must. -/
theorem InMemory.save_keeps_identifier (hs : s.InMemory) {o : SaveOptions}
    (hnew : o.isNew = false) (h : s.save storable d o session = .ok true after) :
    ∃ t id front r back, s.Designates storable d t id ∧
      id.Addresses (session.contents.records t.collection) front r back ∧
      let patch := Patch.ofDocument (d.erase id.name)
      let Kept := (patch.apply r).get? id.name = r.get? id.name
      after.contents.records t.collection = front ++ patch.apply r :: back ∧
      (∀ other, other ≠ t.collection →
        after.contents.records other = session.contents.records other) ∧
      (Kept → ∀ e lo, s.Designates storable e t id →
        s.load storable e lo after = .ok (some (t.shown lo.selector (patch.apply r))) after) ∧
      (patch.Spares id.name → Kept) ∧
      ((∀ other ∈ d.keys, other ≠ "") → ¬ r.Nests id.name →
        (Kept ↔ ∀ e ∈ patch.set, (Path.ofString e.1).first ≠ id.name)) := by
  obtain ⟨t, id, front, r, back, hd, ha, hafter⟩ := hs.exists_addressed_of_save hnew h
  refine ⟨t, id, front, r, back, hd, ha, ?_⟩
  intro patch Kept
  have hrecords : after.contents.records t.collection = front ++ patch.apply r :: back := by
    rw [hafter, Collections.records_set, if_pos rfl]
  refine ⟨hrecords, fun other hother => ?_, fun hkept e lo he => ?_,
    fun hspares => hspares.get?_apply r, fun hnames hplain => ?_⟩
  · rw [hafter, Collections.records_set, if_neg hother]
  · have hagain : id.Addresses (after.contents.records t.collection) front (patch.apply r) back :=
      hrecords ▸ ha.replace hkept
    exact hs.load_addressed he hagain lo
  · have hbelow : patch.OnlyBelow id.name := Patch.onlyBelow_ofDocument
      (fun other ho => hnames other (Document.mem_keys_erase.mp ho).1)
      fun hmem => (Document.mem_keys_erase.mp hmem).2 rfl
    exact hbelow.get?_apply_eq_iff hplain

/-- A dotted attribute beside the identifier, and one whose name only begins like it. -/
theorem InMemory.save_keeps_identifier_film :
    let s : Store Collections :=
      { new Backend.memory with storables := ⟨[⟨"film", "films", ["id"]⟩]⟩ }
    let rs : List Request := [
      .save "film" [("id", .int32 1)] { isNew := true },
      .save "film" [("id", .int32 2), ("year", .int32 1979)] { isNew := true }]
    let session := s.runAll rs (Session.start Collections.empty)
    let d : Document := [("id", .int64 2), ("idea.by", .string "Ash"), ("year", .undefined)]
    s.InMemory ∧
      ∃ after, s.save "film" d {} session = .ok true after ∧
        s.load "film" [("id", .int64 2)] {} after =
          .ok (some [("id", .int32 2), ("idea", .document [("by", .string "Ash")])]) after := by
  intro s rs session d
  have hs : s.InMemory := ⟨rfl, rfl⟩
  have h : s.save "film" d {} session = .ok true ⟨_, _⟩ := rfl
  obtain ⟨t, id, front, r, back, hd, ha, -, -, hfound, hkept, -⟩ :=
    hs.save_keeps_identifier rfl h
  obtain rfl : (⟨"film", "films", ["id"]⟩ : Storable) = t := Except.ok.inj hd.storable
  have hid : [("id", Value.int64 2)] = [(id.name, id.value)] := Except.ok.inj hd.identifier
  obtain rfl : (⟨"id", .int64 2⟩ : Identifier) = id := by
    cases id
    cases hid
    rfl
  obtain rfl : [("id", .int32 2), ("year", .int32 1979)] = r := Option.some.inj ha.find?_eq
  have hspared := hkept (by decide)
  exact ⟨hs, _, h, hfound hspared [("id", .int64 2)] {} ⟨rfl, rfl⟩⟩

/-- An attribute below the identifying one turns the identifier into a document. -/
theorem InMemory.save_loses_identifier :
    ¬ ∀ (s : Store Collections) (rs : List Request) (storable : String) (d : Document)
      (o : SaveOptions) (after : Session Collections),
      s.InMemory → o.isNew = false →
        s.save storable d o (s.runAll rs (Session.start Collections.empty)) = .ok true after →
        ∀ lo, ∃ r, s.load storable d lo after = .ok (some r) after := by
  intro h
  obtain ⟨r, hr⟩ := h
    { new Backend.memory with storables := ⟨[⟨"film", "films", ["id"]⟩]⟩ }
    [.save "film" [("id", .int32 1)] { isNew := true }]
    "film" [("id", .int32 1), ("id.part", .int32 2)] {}
    ⟨⟨[("films", [[("id", .document [("part", .int32 2)])]])]⟩, _⟩ ⟨rfl, rfl⟩ rfl rfl
    { throwIfMissing := false }
  have hnone : none = some r := (EStateM.Result.ok.inj hr).1
  cases hnone

end Store

end RecordStore
