import RecordStore.Proofs.Patch.Frame
import RecordStore.Proofs.Store.Ledger
import RecordStore.Proofs.Store.Retention

namespace RecordStore

/-- The ledger has the records of the engine, each under its own key. -/
structure Ledger.Agrees (l : Ledger) (s : Store Collections) (c : Collections) : Prop where
  records : ∀ name, c.records name = (l name).records
  keyed : ∀ t ∈ s.storables.entries, (l t.collection).Keyed t.keyName

theorem Ledger.agrees_empty (s : Store Collections) : Ledger.empty.Agrees s Collections.empty :=
  ⟨fun _ => rfl, fun _ _ _ h => nomatch h⟩

theorem Ledger.Agrees.set {l : Ledger} {s : Store Collections} {c : Collections}
    (h : l.Agrees s c) (hs : s.Keyed) {t : Storable} (ht : t ∈ s.storables.entries) {m : KeyMap}
    (hm : m.Keyed t.keyName) : (l.set t.collection m).Agrees s (c.set t.collection m.records) := by
  constructor
  · intro name
    rw [Collections.records_set, Ledger.set]
    split
    · rfl
    · exact h.records name
  · intro u hu
    rw [Ledger.set]
    split
    · rename_i he
      rw [hs.collections u hu t ht he]
      exact hm
    · exact h.keyed u hu

theorem Ledger.Agrees.hits_eq {l : Ledger} {s : Store Collections} {c : Collections}
    (h : l.Agrees s c) (collection : String) (es : List Expression) :
    c.hits collection es = l.hits collection es := by
  rw [Collections.hits, h.records, Ledger.hits]

namespace Storables

theorem mem_of_get {ts : Storables} {storable : String} {t : Storable}
    (h : ts.get storable = .ok t) : t ∈ ts.entries ∧ ts.find? storable = some t := by
  unfold get at h
  cases hf : ts.find? storable with
  | none => simp [hf] at h
  | some u =>
    obtain rfl : u = t := by simpa [hf] using h
    exact ⟨List.mem_of_find?_eq_some hf, rfl⟩

theorem place_eq {ts : Storables} {storable : String} {t : Storable}
    (hf : ts.find? storable = some t) (d : Document) : ts.place storable d = t.place d := by
  have hget : ts.get storable = .ok t := by rw [get, hf]
  rw [place, hget]
  rfl

end Storables

namespace Storable

theorem place_of_key {t : Storable} {d : Document} {v : Value} {k : Key}
    (hv : d.get? t.keyName = some v) (hk : v.key? = some k) :
    t.place d = .ok ⟨t, k, Document.text [(t.keyName, v)]⟩ := by
  simp [place, hv, hk]

/-- Either a document has no identifier for the store nor a place in the ledger, or it has both,
and they are of one key. -/
theorem identifierOf_place {t : Storable} (ht : t.identifiers = [t.keyName]) {d : Document}
    (hd : ∀ v, d.get? t.keyName = some v → isUsable v → ∃ k, v.key? = some k) :
    (∃ e, t.identifierOf d = .error e ∧ t.place d = .error e) ∨
      ∃ v k, d.get? t.keyName = some v ∧ v.key? = some k ∧
        t.identifierOf d = .ok [(t.keyName, v)] ∧
        t.place d = .ok ⟨t, k, Document.text [(t.keyName, v)]⟩ := by
  cases hg : d.get? t.keyName with
  | none =>
    refine .inl ⟨.missingIdentifier t.name, ?_, ?_⟩
    · simp [identifierOf, ht, firstIdentifier?, hg]
    · simp [place, hg]
  | some v =>
    cases hk : v.key? with
    | none =>
      have hu : isUsable v = false := by
        cases hu : isUsable v with
        | false => rfl
        | true =>
          obtain ⟨k, hv⟩ := hd v hg hu
          rw [hk] at hv
          cases hv
      refine .inl ⟨.missingIdentifier t.name, ?_, ?_⟩
      · simp [identifierOf, ht, firstIdentifier?, hg, hu]
      · simp [place, hg, hk]
    | some k =>
      have hu := Value.isUsable_of_key? hk
      refine .inr ⟨v, k, rfl, hk, ?_, place_of_key hg hk⟩
      simp [identifierOf, ht, firstIdentifier?, hg, hu]

theorem shows_shown {t : Storable} (ht : t.identifiers = [t.keyName])
    (hn : Path.IsName t.keyName) (selector : Selector) {d : Document} {k : Key}
    (hk : d.key? t.keyName = some k) : t.Shows selector d (t.shown selector d) := by
  have hnames : ∀ name ∈ t.identifiers, Path.IsName name := by
    rw [ht]
    exact List.forall_mem_singleton.mpr hn
  have hother : ∀ name, name ≠ t.keyName → name ∉ t.identifiers := fun name hne hm =>
    hne (List.mem_singleton.mp (ht ▸ hm))
  refine ⟨?_, fun name hd => ?_, fun name hne hs => ?_, fun hs name v hne hv => ?_⟩
  · obtain ⟨v, hv, hkey⟩ := Option.bind_eq_some_iff.mp hk
    have hmem : t.keyName ∈ t.identifiers := ht ▸ List.mem_singleton_self _
    rw [keepsIdentifiers_shown hnames selector d _ hmem, hv, Option.map_some,
      Selector.kept_of_isPlain (Value.isPlain_of_key? hkey)]
  · simp [shown, Selector.get?_pick, Projection.get?_apply_of_absent _ hd]
  · rw [shown, Selector.get?_pick, if_neg (hother name hne), hs]
    rfl
  · obtain ⟨rows, hrows, hrest⟩ := Selector.restricts_withPaths hs hnames hv
    refine Selector.shapes_get?_pick (hother name hne) ?_
    refine Selector.shapes_of_restricts hrest (hs.get name) fun row => (hrows row).trans ?_
    exact or_iff_left fun h => hother name hne h.2

end Storable

namespace Store

variable {s : Store Collections} {storable : String} {t : Storable} {d : Document} {v : Value}

/-- An operation ended as it did on the ledger, and what it left agrees. -/
inductive Tallies (s : Store Collections) : EStateM.Result StoreError (Session Collections) Answer →
    Except StoreError Answer × Ledger → Prop
  | ok {a : Answer} {session : Session Collections} {l : Ledger}
      (h : l.Agrees s session.contents) : Tallies s (.ok a session) (.ok a, l)
  | error {e : StoreError} {session : Session Collections} {l : Ledger}
      (h : l.Agrees s session.contents) : Tallies s (.error e session) (.error e, l)

variable {α : Type} {l : Ledger} {c : Collections} {session : Session Collections} {e : StoreError}

theorem tallies_refused {x : StoreM Collections Bool} {fails : Bool} {record : Bool → LogRecord}
    (hx : x session = written none fails e record session)
    (ha : l.Agrees s session.contents) : Tallies s ((.flag <$> x) session) (l.refuse fails e) := by
  cases fails with
  | false =>
    rw [map_of_ok hx]
    exact .ok ha
  | true =>
    rw [map_of_error hx]
    exact .error ha

theorem tallies_written {x : StoreM Collections Bool} {fails : Bool} {record : Bool → LogRecord}
    {m : KeyMap}
    (hx : x session =
      written (some (session.contents.set t.collection m.records)) fails e record session)
    (ha : l.Agrees s session.contents) (hs : s.Keyed) (ht : t ∈ s.storables.entries)
    (hm : m.Keyed t.keyName) :
    Tallies s ((.flag <$> x) session) (.ok (.flag true), l.set t.collection m) := by
  rw [map_of_ok hx]
  exact .ok (ha.set hs ht hm)

theorem tallies_of_present {x : StoreM Collections Bool} {fails : Bool}
    {record : Bool → LogRecord} {present : Bool} {m : KeyMap}
    (hx : x session =
      written (if present then some (session.contents.set t.collection m.records) else none) fails
        e record session)
    (ha : l.Agrees s session.contents) (hs : s.Keyed) (ht : t ∈ s.storables.entries)
    (hm : m.Keyed t.keyName) :
    Tallies s ((.flag <$> x) session)
      (if present then (.ok (.flag true), l.set t.collection m) else l.refuse fails e) := by
  cases present with
  | true => exact tallies_written hx ha hs ht hm
  | false => exact tallies_refused hx ha

theorem Keyed.saveNew_tallies (hs : s.Keyed) (ha : l.Agrees s session.contents)
    (ht : t ∈ s.storables.entries) {k : Key} (hv : d.get? t.keyName = some v)
    (hk : v.key? = some k) (fails : Bool) :
    Tallies s ((.flag <$> s.saveNew t [(t.keyName, v)] d fails) session)
      (l.saveNew ⟨t, k, Document.text [(t.keyName, v)]⟩ d fails) := by
  have hx := saveNew_eq hs.backend t t.keyName v d fails session
  have hm := ha.keyed t ht
  rw [Collections.create?_eq (ha.records _) hm hk] at hx
  rw [Ledger.saveNew]
  split
  · rename_i hp
    rw [if_pos hp] at hx
    exact tallies_refused hx ha
  · rename_i hp
    rw [if_neg hp] at hx
    have hd : d.key? t.keyName = some k := Option.bind_eq_some_iff.mpr ⟨v, hv, hk⟩
    exact tallies_written hx ha hs ht (hm.add (Document.key?_strip hd))

theorem Keyed.saveExisting_tallies (hs : s.Keyed) (ha : l.Agrees s session.contents)
    (ht : t ∈ s.storables.entries) {k : Key} (hk : v.key? = some k)
    (hd : ∀ name ∈ d.keys, Path.IsName name) (fails : Bool) :
    Tallies s ((.flag <$> s.saveExisting t [(t.keyName, v)] d fails) session)
      (l.saveExisting ⟨t, k, Document.text [(t.keyName, v)]⟩ d fails) := by
  have hx := saveExisting_eq hs.backend t t.keyName v d fails session
  have hm := ha.keyed t ht
  rw [Collections.update?_eq (ha.records _) hm hk] at hx
  refine tallies_of_present hx ha hs ht (hm.change k fun r => ?_)
  -- no path of the patch begins with the identifying attribute
  rw [Document.key?, Patch.get?_apply_ofDocument_erase hd]
  rfl

theorem Keyed.delete_tallies (hs : s.Keyed) (ha : l.Agrees s session.contents)
    (hget : s.storables.get storable = .ok t) {k : Key} (hk : v.key? = some k)
    (hd : t.identifierOf d = .ok [(t.keyName, v)]) (o : DeleteOptions) :
    Tallies s ((.flag <$> s.delete storable d o) session)
      (l.delete ⟨t, k, Document.text [(t.keyName, v)]⟩ o.throwIfMissing) := by
  have hx := delete_eq hs.backend hget ((hs.identify_eq t d).trans hd) o session
  have ht := (Storables.mem_of_get hget).1
  have hm := ha.keyed t ht
  rw [Collections.delete?_eq (ha.records _) hm hk] at hx
  exact tallies_of_present hx ha hs ht (hm.remove k)

theorem Keyed.reads_load (hs : s.Keyed) (ha : l.Agrees s c)
    (hget : s.storables.get storable = .ok t) {k : Key} (hk : v.key? = some k)
    (hd : t.identifierOf d = .ok [(t.keyName, v)]) (o : LoadOptions) :
    Reads c (s.load storable d o) (l.load ⟨t, k, Document.text [(t.keyName, v)]⟩ o) := by
  intro log
  have hm := ha.keyed t (Storables.mem_of_get hget).1
  refine ⟨log, ?_⟩
  rw [hs.load_eq hget hd o, Collections.read?_eq (ha.records _) hm hk, Ledger.load]
  cases (l t.collection).find? k with
  | some r => rfl
  | none => cases o.throwIfMissing <;> rfl

theorem Keyed.reads_find (hs : s.Keyed) (ha : l.Agrees s c) (storable : String)
    (query : Document) (o : FindOptions) :
    Reads c (s.find storable query o) (l.find s storable query o) := by
  unfold Ledger.find
  simp only [← ha.hits_eq]
  exact hs.toInMemory.reads_find storable query o

theorem Keyed.reads_count (hs : s.Keyed) (ha : l.Agrees s c) (storable : String)
    (query : Document) : Reads c (s.count storable query) (l.count s storable query) := by
  unfold Ledger.count
  simp only [← ha.hits_eq]
  exact hs.toInMemory.reads_count storable query

theorem tallies_of_reads {x : StoreM Collections α} {y : Except StoreError α}
    (h : Reads session.contents x y) (ha : l.Agrees s session.contents) (g : α → Answer) :
    Tallies s ((g <$> x) session) (g <$> y, l) := by
  obtain ⟨after, hx⟩ := h session.log
  cases y with
  | error e =>
    rw [map_of_error hx]
    exact .error ha
  | ok a =>
    rw [map_of_ok hx]
    exact .ok ha

theorem tallies_of_error {x : StoreM Collections α} (hx : x session = .error e session)
    (ha : l.Agrees s session.contents) (g : α → Answer) :
    Tallies s ((g <$> x) session) (.error e, l) := by
  rw [map_of_error hx]
  exact .error ha

theorem Keyed.identifiers_eq (hs : s.Keyed) (ht : t ∈ s.storables.entries) :
    t.identifiers = [t.keyName] := by
  obtain ⟨name, hname⟩ := hs.identifiers t ht
  rw [Storable.keyName, hname, List.headD_cons]

/-- Either a request has no place in the ledger and fails alike in the store, or it is about a
registered type and an identifier that has a key. -/
theorem Keyed.place_cases (hs : s.Keyed) (hd : s.storables.Admits storable d) :
    (∃ e, (do (← s.storables.get storable).identifierOf d) = .error e ∧
        s.storables.place storable d = .error e) ∨
      ∃ t v k, s.storables.get storable = .ok t ∧ d.get? t.keyName = some v ∧ v.key? = some k ∧
        t.identifierOf d = .ok [(t.keyName, v)] ∧
        s.storables.place storable d = .ok ⟨t, k, Document.text [(t.keyName, v)]⟩ := by
  unfold Storables.place
  cases hget : s.storables.get storable with
  | error e => exact .inl ⟨e, rfl, rfl⟩
  | ok t =>
    obtain ⟨ht, hf⟩ := Storables.mem_of_get hget
    obtain ⟨e, hi, hp⟩ | ⟨v, k, hv, hk, hi, hp⟩ :=
      Storable.identifierOf_place (hs.identifiers_eq ht) fun v => hd t v hf
    · exact .inl ⟨e, hi, hp⟩
    · exact .inr ⟨t, v, k, rfl, hv, hk, hi, hp⟩

/-- One request comes to the same on a ledger that agrees, and leaves the two in agreement. -/
theorem Keyed.answer_tallies (hs : s.Keyed) (ha : l.Agrees s session.contents) {r : Request}
    (hr : s.Admits r) : Tallies s (s.answer r session) (s.consult l r) := by
  cases r with
  | load storable d o =>
    rw [consult, answer]
    obtain ⟨e, hi, hp⟩ | ⟨t, v, k, hget, hv, hk, hi, hp⟩ := hs.place_cases hr
    · have hx : s.load storable d o session = .error e session :=
        hs.bind_unidentified hi _ session
      rw [hp]
      exact tallies_of_error hx ha .record
    · rw [hp]
      exact tallies_of_reads (hs.reads_load ha hget hk hi o) ha .record
  | save storable d o =>
    rw [consult, answer]
    cases ho : o.resolve with
    | error e =>
      have hx : s.save storable d o session = .error e session := by
        rw [save, bind_of_error (liftExcept_of_error ho)]
      exact tallies_of_error hx ha .flag
    | ok flags =>
      obtain ⟨e, hi, hp⟩ | ⟨t, v, k, hget, hv, hk, hi, hp⟩ := hs.place_cases hr.1
      · have hx : s.save storable d o session = .error e session :=
          (hs.save_eq ho session).trans (hs.bind_unidentified hi _ session)
        rw [hp]
        exact tallies_of_error hx ha .flag
      · have ht := (Storables.mem_of_get hget).1
        have hid : s.identify t d = .ok [(t.keyName, v)] := (hs.identify_eq t d).trans hi
        have hx := (hs.save_eq ho session).trans
          ((bind_of_ok (liftExcept_of_ok hget)).trans (bind_of_ok (liftExcept_of_ok hid)))
        rw [hp]
        cases hnew : o.isNew with
        | true =>
          rw [hnew, if_pos rfl] at hx
          rw [map_congr hx]
          exact hs.saveNew_tallies ha ht hv hk flags.throwIfExists
        | false =>
          rw [hnew, if_neg Bool.false_ne_true] at hx
          rw [map_congr hx]
          exact hs.saveExisting_tallies ha ht hk hr.2 flags.throwIfMissing
  | delete storable d o =>
    rw [consult, answer]
    obtain ⟨e, hi, hp⟩ | ⟨t, v, k, hget, hv, hk, hi, hp⟩ := hs.place_cases hr
    · have hx : s.delete storable d o session = .error e session :=
        hs.bind_unidentified hi _ session
      rw [hp]
      exact tallies_of_error hx ha .flag
    · rw [hp]
      exact hs.delete_tallies ha hget hk hi o
  | find storable query o =>
    rw [consult, answer]
    exact tallies_of_reads (hs.reads_find ha storable query o) ha .records
  | count storable query =>
    rw [consult, answer]
    exact tallies_of_reads (hs.reads_count ha storable query) ha .number

theorem Keyed.run_consult (hs : s.Keyed) (ha : l.Agrees s session.contents) {r : Request}
    (hr : s.Admits r) :
    (s.run r session).result = (s.consult l r).1 ∧
      (s.consult l r).2.Agrees s (s.run r session).session.contents := by
  have h := hs.answer_tallies ha hr
  rw [run]
  cases hx : s.answer r session with
  | ok a after =>
    rw [hx] at h
    generalize s.consult l r = step at h
    cases h with
    | ok hl => exact ⟨rfl, hl⟩
  | error e after =>
    rw [hx] at h
    generalize s.consult l r = step at h
    cases h with
    | error hl => exact ⟨rfl, hl⟩

theorem Keyed.results_consultAll (hs : s.Keyed) (rs : List Request) (hrs : ∀ r ∈ rs, s.Admits r)
    (session : Session Collections) (ha : l.Agrees s session.contents) :
    s.results session rs = s.consultAll l rs ∧
      (s.ledgerAfter l rs).Agrees s (s.runAll rs session).contents := by
  -- each request needs the agreement and restores it
  induction rs generalizing l session with
  | nil => exact ⟨rfl, ha⟩
  | cons r rs ih =>
    obtain ⟨hr, hrest⟩ := List.forall_mem_cons.mp hrs
    obtain ⟨hresult, hnext⟩ := hs.run_consult ha hr
    obtain ⟨hresults, hafter⟩ := ih hrest _ hnext
    refine ⟨?_, hafter⟩
    rw [results, consultAll, hresult, hresults]

theorem Keyed.loadsShaped (hs : s.Keyed) (ha : l.Agrees s session.contents) :
    s.LoadsShaped session := by
  intro storable t hf hn record hrecord d o hd
  have ht : t ∈ s.storables.entries := List.mem_of_find?_eq_some hf
  rw [ha.records] at hrecord
  obtain ⟨k, hk, hfind⟩ := (ha.keyed t ht).exists_find? hrecord
  obtain ⟨v, hv, hkey⟩ := Option.bind_eq_some_iff.mp (hd.trans hk)
  have hadmits : s.Admits (.load storable d o) := by
    intro u w hu hw _
    obtain rfl : t = u := Option.some.inj (hf.symm.trans hu)
    obtain rfl : v = w := Option.some.inj (hv.symm.trans hw)
    exact ⟨k, hkey⟩
  have hplace := (Storables.place_eq hf d).trans (Storable.place_of_key hv hkey)
  have hload : l.load ⟨t, k, Document.text [(t.keyName, v)]⟩ o =
      .ok (some (t.shown o.selector record)) := by rw [Ledger.load, hfind]
  refine ⟨t.shown o.selector record, (hs.run_consult ha hadmits).1.trans ?_,
    Storable.shows_shown (hs.identifiers_eq ht) hn o.selector hk⟩
  rw [consult, hplace]
  exact congrArg (Answer.record <$> ·) hload

/-- From the empty store on, every row of requests is answered as by the ledger, and the records
are those of the ledger. Every record has a key, and no two records of a collection have the
same. A load of a key that is there answers with the record under it, as the selector shapes it. -/
theorem Keyed.results_eq_consultAll (hs : s.Keyed) {rs : List Request}
    (hrs : ∀ r ∈ rs, s.Admits r) :
    let after := s.runAll rs (Session.start Collections.empty)
    s.results (Session.start Collections.empty) rs = s.consultAll Ledger.empty rs ∧
      (∀ collection,
        after.contents.records collection = (s.ledgerAfter Ledger.empty rs collection).records) ∧
      (∀ t ∈ s.storables.entries,
        (∀ d ∈ after.contents.records t.collection, ∃ k, d.key? t.keyName = some k) ∧
          ((after.contents.records t.collection).map fun d => d.key? t.keyName).Nodup) ∧
      s.LoadsShaped after := by
  intro after
  obtain ⟨hresults, hafter⟩ := hs.results_consultAll rs hrs
    (Session.start Collections.empty) (Ledger.agrees_empty s)
  refine ⟨hresults, hafter.records, fun t ht => ?_, hs.loadsShaped hafter⟩
  have hm := hafter.keyed t ht
  rw [hafter.records t.collection]
  refine ⟨fun d hd => ?_, ?_⟩
  · obtain ⟨k, hk, -⟩ := hm.exists_find? hd
    exact ⟨k, hk⟩
  · rw [hm.map_key?]
    exact List.Pairwise.map some (fun _ _ h => by simpa using h) (KeyMap.nodup _)

/-- One key is spelled in both widths, a key taken is refused, a record is deleted again, and a
selector that goes on inside an array does not name the identifier. -/
theorem Keyed.results_eq_consultAll_films :
    let film : Storable := ⟨"film", "films", ["id"]⟩
    let s : Store Collections := { new Backend.memory with storables := ⟨[film]⟩ }
    let cast : Selector := .fields [("year", .all), ("cast", .fields [("by", .all)])]
    let crew (first last : Document) : Value := .array [.document first, .array [.document last]]
    let whole := crew [("by", .string "Weaver"), ("as", .string "Ripley")] [("as", .string "Ash")]
    let rs : List Request := [
      .save "film" [("id", .int32 1), ("name", .string "Alien"), ("year", .undefined),
        ("cast", whole)] { isNew := true },
      .save "film" [("id", .int64 1)] { isNew := true },
      .count "film" [],
      .save "film" [("id", .int64 1), ("name", .undefined), ("year", .int32 1979)] {},
      .save "film" [("id", .string "1")] { isNew := true },
      .delete "film" [("id", .string "1")] {},
      .load "film" [("id", .string "1")] { throwIfMissing := false },
      .load "film" [("id", .int64 1)] { selector := cast }]
    let record : Document := [("id", .int32 1), ("cast", whole), ("year", .int32 1979)]
    let shown : Document :=
      [("year", .int32 1979), ("cast", crew [("by", .string "Weaver")] []), ("id", .int32 1)]
    let after := s.runAll rs (Session.start Collections.empty)
    s.Keyed ∧ (∀ r ∈ rs, s.Admits r) ∧
      s.results (Session.start Collections.empty) rs = s.consultAll Ledger.empty rs ∧
      s.results (Session.start Collections.empty) rs = [
        .ok (.flag true), .error (.alreadyExistsInStore "films" "\x7b \"id\": 1 \x7d"),
        .ok (.number 1), .ok (.flag true), .ok (.flag true), .ok (.flag true),
        .ok (.record none), .ok (.record (some shown))] ∧
      after.contents.records "films" = [record] ∧ s.LoadsShaped after := by
  intro film s cast crew whole rs record shown after
  have hs : s.Keyed := ⟨⟨rfl, rfl⟩, by simp [s, film], by simp [s]⟩
  have hid : ∀ {d : Document} {v : Value} {k : Key}, d.get? "id" = some v → v.key? = some k →
      s.storables.Admits "film" d := by
    intro d v k hv hk t w ht hw _
    obtain rfl : film = t := Option.some.inj ht
    obtain rfl : v = w := Option.some.inj (hv.symm.trans hw)
    exact ⟨k, hk⟩
  have hrs : ∀ r ∈ rs, s.Admits r := by
    refine List.forall_mem_cons.mpr ⟨⟨hid rfl rfl, by decide⟩, ?_⟩
    refine List.forall_mem_cons.mpr ⟨⟨hid rfl rfl, by decide⟩, ?_⟩
    refine List.forall_mem_cons.mpr ⟨trivial, ?_⟩
    refine List.forall_mem_cons.mpr ⟨⟨hid rfl rfl, by decide⟩, ?_⟩
    refine List.forall_mem_cons.mpr ⟨⟨hid rfl rfl, by decide⟩, ?_⟩
    refine List.forall_mem_cons.mpr ⟨hid rfl rfl, ?_⟩
    refine List.forall_mem_cons.mpr ⟨hid rfl rfl, ?_⟩
    exact List.forall_mem_singleton.mpr (hid rfl rfl)
  have happly : (projectionFor film cast).apply record = [("year", .int32 1979),
      ("cast", crew [("by", .string "Weaver")] [("as", .string "Ash")]), ("id", .int32 1)] := rfl
  have hshown : film.shown cast record = shown := by
    rw [Storable.shown, happly]
    rfl
  obtain ⟨hresults, hrecords, -, hshaped⟩ := hs.results_eq_consultAll hrs
  refine ⟨hs, hrs, hresults, ?_, (hrecords "films").trans rfl, hshaped⟩
  rw [hresults, ← hshown]
  rfl

end Store

end RecordStore
