import RecordStore.Proofs.Store.Writes

namespace RecordStore

section Sessions

variable {σ ε α β : Type} {session : Session σ}

def Session.trail (session : Session σ) : List LogRecord :=
  session.log.filter fun r => r.target = .audit

theorem Session.trail_write_app {rs : List LogRecord} (h : ∀ r ∈ rs, r.target = .app) :
    (session.write rs).trail = session.trail := by
  have hnone : rs.filter (fun r => r.target = .audit) = [] :=
    List.filter_eq_nil_iff.mpr fun r hr => by simp [h r hr]
  rw [trail, write, List.filter_append, hnone, List.append_nil, trail]

theorem Session.trail_write_audit {r : LogRecord} (h : r.target = .audit) :
    (session.write [r]).trail = session.trail ++ [r] := by
  simp [trail, write, h]

def sessionAfter : EStateM.Result ε (Session σ) α → Session σ
  | .ok _ session | .error _ session => session

def Quiet (x : EStateM ε (Session σ) α) : Prop :=
  ∀ session, (sessionAfter (x session)).trail = session.trail

theorem Quiet.of_ok {x : EStateM ε (Session σ) α} (hx : Quiet x) {a : α} {after : Session σ}
    (h : x session = .ok a after) : after.trail = session.trail := by
  have htrail := hx session
  rwa [h] at htrail

theorem Quiet.of_error {x : EStateM ε (Session σ) α} (hx : Quiet x) {e : ε} {after : Session σ}
    (h : x session = .error e after) : after.trail = session.trail := by
  have htrail := hx session
  rwa [h] at htrail

theorem quiet_pure (a : α) : Quiet (pure a : EStateM ε (Session σ) α) := fun _ => rfl

theorem quiet_lift (y : Except ε α) : Quiet (liftExcept y : EStateM ε (Session σ) α) := by
  intro session
  cases y <;> rfl

theorem quiet_emit {rs : List LogRecord} (h : ∀ r ∈ rs, r.target = .app) :
    Quiet (Session.emit rs : EStateM ε (Session σ) Unit) :=
  fun _ => Session.trail_write_app h

theorem Quiet.bind {x : EStateM ε (Session σ) α} {f : α → EStateM ε (Session σ) β} (hx : Quiet x)
    (hf : ∀ a, Quiet (f a)) : Quiet (x >>= f) := by
  intro session
  cases h : x session with
  | ok a after =>
    rw [bind_of_ok h]
    exact (hf a after).trans (hx.of_ok h)
  | error e after =>
    rw [bind_of_error h]
    exact hx.of_error h

theorem Quiet.map {x : EStateM ε (Session σ) α} (hx : Quiet x) (g : α → β) : Quiet (g <$> x) := by
  rw [map_eq_pure_bind]
  exact hx.bind fun a => quiet_pure (g a)

end Sessions

namespace Backend

variable {σ : Type}

structure IsQuiet (b : Backend σ) : Prop where
  create : ∀ collection identifier d, Quiet (b.create collection identifier d)
  read : ∀ collection identifier p, Quiet (b.read collection identifier p)
  update : ∀ collection identifier p, Quiet (b.update collection identifier p)
  delete : ∀ collection identifier, Quiet (b.delete collection identifier)
  find : ∀ collection es p params, Quiet (b.find collection es p params)
  count : ∀ collection es, Quiet (b.count collection es)

theorem quiet_getContents : Quiet (Session.getContents : BackendM σ σ) := fun _ => rfl

theorem quiet_identifierOf (d : Document) : Quiet (identifierOf d) := by
  intro session
  rw [identifierOf]
  cases Identifier.ofDocument? d <;> rfl

theorem quiet_commit (c? : Option Collections) : Quiet (commit c?) := by
  intro session
  cases c? <;> rfl

theorem target_of_mem_matchRecords {c : Collections} {name : String} {es : List Expression} :
    ∀ r ∈ c.matchRecords name es, r.target = .app := by
  intro r hr
  obtain ⟨d, -, hr⟩ := List.mem_flatMap.mp hr
  rw [List.eq_of_mem_replicate hr]
  rfl

theorem isQuiet_memory : memory.IsQuiet where
  create _ identifier _ :=
    (quiet_identifierOf identifier).bind fun _ => quiet_getContents.bind fun _ => quiet_commit _
  read _ identifier _ :=
    (quiet_identifierOf identifier).bind fun _ => quiet_getContents.bind fun _ => quiet_pure _
  update _ identifier _ :=
    (quiet_identifierOf identifier).bind fun _ => quiet_getContents.bind fun _ => quiet_commit _
  delete _ identifier :=
    (quiet_identifierOf identifier).bind fun _ => quiet_getContents.bind fun _ => quiet_commit _
  find name es p params := by
    refine quiet_getContents.bind fun c => ?_
    cases c.records? name with
    | none => exact quiet_pure []
    | some ds =>
      refine (quiet_emit target_of_mem_matchRecords).bind fun _ => ?_
      exact (quiet_emit (List.forall_mem_singleton.mpr rfl)).bind fun _ => quiet_pure _
  count _ _ := quiet_getContents.bind fun _ =>
    (quiet_emit target_of_mem_matchRecords).bind fun _ => quiet_pure _

end Backend

def Request.isWrite : Request → Bool
  | save _ _ _ | delete _ _ _ => true
  | load _ _ _ | find _ _ _ | count _ _ => false

namespace Store

section Records

variable {σ : Type}

def auditLine (operation collection : String) (identifier : Document) (detail : String)
    (b : Bool) : LogRecord :=
  ⟨.info, .audit, operation ++ " " ++ collection ++ " " ++ identifier.text ++ detail ++ " -> " ++
    boolText b⟩

def patchDetail (p : Patch) : String :=
  " set=" ++ toString p.set.length ++ " unset=" ++ toString p.unset.length

/-- The records that the trail is to have of a request, given what it came to: one of a save or a
deletion that was answered, and none of anything else. -/
inductive Audited (s : Store σ) : Request → Except StoreError Answer → List LogRecord → Prop
  | created {storable : String} {d record identifier : Document} {o : SaveOptions} {t : Storable}
      (b : Bool) (hnew : o.isNew = true) (ht : s.storables.get storable = .ok t)
      (hrecord : s.codec.encode d = .ok record) (hid : t.identifierOf record = .ok identifier) :
      Audited s (.save storable d o) (.ok (.flag b))
        [auditLine "create" t.collection identifier "" b]
  | updated {storable : String} {d record identifier : Document} {o : SaveOptions} {t : Storable}
      (b : Bool) (hnew : o.isNew = false) (ht : s.storables.get storable = .ok t)
      (hrecord : s.codec.encode d = .ok record) (hid : t.identifierOf record = .ok identifier) :
      Audited s (.save storable d o) (.ok (.flag b))
        [auditLine "update" t.collection identifier
          (patchDetail (Patch.ofDocument (identifier.keys.foldl Document.erase record))) b]
  | deleted {storable : String} {d identifier : Document} {o : DeleteOptions} {t : Storable}
      (b : Bool) (ht : s.storables.get storable = .ok t)
      (hid : s.identify t d = .ok identifier) :
      Audited s (.delete storable d o) (.ok (.flag b))
        [auditLine "delete" t.collection identifier "" b]
  | failed (r : Request) (e : StoreError) : Audited s r (.error e) []
  | read {r : Request} (h : r.isWrite = false) (result : Except StoreError Answer) :
      Audited s r result []

theorem createRecord_eq (collection : String) (identifier : Document) (b : Bool) :
    createRecord collection identifier b = auditLine "create" collection identifier "" b := by
  rw [auditLine, String.append_empty]
  rfl

theorem updateRecord_eq (collection : String) (identifier : Document) (p : Patch) (b : Bool) :
    updateRecord collection identifier p b =
      auditLine "update" collection identifier (patchDetail p) b := by
  rw [auditLine, patchDetail]
  simp only [← String.append_assoc]
  rfl

theorem deleteRecord_eq (collection : String) (identifier : Document) (b : Bool) :
    deleteRecord collection identifier b = auditLine "delete" collection identifier "" b := by
  rw [auditLine, String.append_empty]
  rfl

end Records

section Steps

variable {σ α : Type} {s : Store σ} {session : Session σ}

theorem quiet_call {run : BackendM σ α} (hrun : Quiet run) (operation collection : String) :
    Quiet (call operation collection run) := by
  intro session
  rw [call]
  cases h : run session with
  | ok a after => exact hrun.of_ok h
  | error e after =>
    exact (Session.trail_write_app (List.forall_mem_singleton.mpr rfl)).trans (hrun.of_error h)

theorem target_of_mem_compileRecords {compiled : QueryRules.Compiled} :
    ∀ r ∈ QueryRules.compileRecords compiled, r.target = .app := by
  cases compiled with
  | error e => exact nofun
  | ok es => exact List.forall_mem_cons.mpr ⟨rfl, List.forall_mem_map.mpr fun _ _ => rfl⟩

theorem quiet_conditions (s : Store σ) (query : Document) : Quiet (s.conditions query) :=
  (quiet_lift _).bind fun _ => (quiet_emit target_of_mem_compileRecords).bind fun _ => quiet_lift _

theorem quiet_load (hb : s.backend.IsQuiet) (storable : String) (d : Document) (o : LoadOptions) :
    Quiet (s.load storable d o) := by
  refine (quiet_lift _).bind fun t => (quiet_lift _).bind fun identifier =>
    (quiet_call (hb.read _ _ _) _ _).bind fun found => ?_
  cases found with
  | some d => exact (quiet_lift _).map some
  | none => cases o.throwIfMissing <;> exact fun _ => rfl

theorem quiet_find (hb : s.backend.IsQuiet) (storable : String) (query : Document)
    (o : FindOptions) : Quiet (s.find storable query o) :=
  (quiet_lift _).bind fun _ => (s.quiet_conditions query).bind fun _ => (quiet_lift _).bind fun _ =>
    (quiet_call (hb.find _ _ _ _) _ _).bind fun _ => quiet_lift _

theorem quiet_count (hb : s.backend.IsQuiet) (storable : String) (query : Document) :
    Quiet (s.count storable query) :=
  (quiet_lift _).bind fun _ => (s.quiet_conditions query).bind fun _ =>
    quiet_call (hb.count _ _) _ _

/-- An operation that adds to the trail one record of its answer, as `P` says, or fails and adds
nothing. -/
inductive Tells (session : Session σ) (P : Bool → LogRecord → Prop) :
    EStateM.Result StoreError (Session σ) Bool → Prop
  | answered {b : Bool} {r : LogRecord} {after : Session σ} (h : P b r)
      (htrail : after.trail = session.trail ++ [r]) : Tells session P (.ok b after)
  | failed {e : StoreError} {after : Session σ} (htrail : after.trail = session.trail) :
      Tells session P (.error e after)

variable {P : Bool → LogRecord → Prop}

theorem tells_lift {y : Except StoreError α} {f : α → StoreM σ Bool}
    (h : ∀ a, y = .ok a → Tells session P (f a session)) :
    Tells session P ((liftExcept y >>= f) session) := by
  cases hy : y with
  | error e =>
    rw [bind_of_error (liftExcept_of_error rfl)]
    exact .failed rfl
  | ok a =>
    rw [bind_of_ok (liftExcept_of_ok rfl)]
    exact h a hy

/-- The part that all writes have in common: the engine is called, a refusal may be a failure, and
what is answered is told. -/
theorem tells_write {run : StoreM σ Bool} (hrun : Quiet run) {record : Bool → LogRecord}
    (haudit : ∀ b, (record b).target = .audit) (h : ∀ b, P b (record b)) (fails : Bool)
    (e : StoreError) :
    Tells session P ((do
      let done ← run
      if !done && fails then throw e
      Session.emit [record done]
      return done : StoreM σ Bool) session) := by
  cases hr : run session with
  | error e after =>
    rw [bind_of_error hr]
    exact .failed (hrun.of_error hr)
  | ok done after =>
    rw [bind_of_ok hr]
    have htold : (after.write [record done]).trail = session.trail ++ [record done] := by
      rw [Session.trail_write_audit (haudit done), hrun.of_ok hr]
    cases done with
    | true => exact .answered (h true) htold
    | false =>
      cases fails with
      | true => exact .failed (hrun.of_ok hr)
      | false => exact .answered (h false) htold

theorem save_tells (hb : s.backend.IsQuiet) (storable : String) (d : Document) (o : SaveOptions)
    (session : Session σ) :
    Tells session (fun b r => s.Audited (.save storable d o) (.ok (.flag b)) [r])
      (s.save storable d o session) := by
  refine tells_lift fun flags _ => tells_lift fun t ht => tells_lift fun record hrecord =>
    tells_lift fun identifier hid => ?_
  cases hnew : o.isNew with
  | true =>
    rw [if_pos rfl]
    apply tells_write (quiet_call (hb.create _ _ _) _ _) (fun _ => rfl)
    intro b
    rw [createRecord_eq]
    exact .created b hnew ht hrecord hid
  | false =>
    rw [if_neg Bool.false_ne_true]
    apply tells_write (quiet_call (hb.update _ _ _) _ _) (fun _ => rfl)
    intro b
    rw [updateRecord_eq]
    exact .updated b hnew ht hrecord hid

theorem delete_tells (hb : s.backend.IsQuiet) (storable : String) (d : Document)
    (o : DeleteOptions) (session : Session σ) :
    Tells session (fun b r => s.Audited (.delete storable d o) (.ok (.flag b)) [r])
      (s.delete storable d o session) := by
  refine tells_lift fun t ht => tells_lift fun identifier hid => ?_
  apply tells_write (quiet_call (hb.delete _ _) _ _) (fun _ => rfl)
  intro b
  rw [deleteRecord_eq]
  exact .deleted b ht hid

def Owes (s : Store σ) (session : Session σ) (r : Request) (outcome : Outcome σ) : Prop :=
  ∃ records, s.Audited r outcome.result records ∧
    outcome.session.trail = session.trail ++ records

theorem owes_of_quiet {x : StoreM σ α} (hx : Quiet x) {r : Request} {g : α → Answer}
    (hr : s.answer r = g <$> x) (hread : r.isWrite = false) :
    s.Owes session r (s.run r session) := by
  have htrail := hx.map g session
  refine ⟨[], .read hread _, ?_⟩
  rw [List.append_nil, ← htrail, run, hr]
  cases (g <$> x) session <;> rfl

theorem Tells.owes {x : StoreM σ Bool} {r : Request}
    (h : Tells session (fun b record => s.Audited r (.ok (.flag b)) [record]) (x session))
    (hr : s.answer r = .flag <$> x) : s.Owes session r (s.run r session) := by
  rw [run, hr]
  generalize hx : x session = result at h
  cases h with
  | answered h htrail =>
    rw [map_of_ok hx]
    exact ⟨_, h, htrail⟩
  | failed htrail =>
    rw [map_of_error hx]
    exact ⟨[], .failed r _, htrail.trans (List.append_nil _).symm⟩

theorem run_owes (hb : s.backend.IsQuiet) (r : Request) (session : Session σ) :
    s.Owes session r (s.run r session) := by
  cases r with
  | load storable d o => exact owes_of_quiet (quiet_load hb storable d o) (g := .record) rfl rfl
  | save storable d o => exact (save_tells hb storable d o session).owes rfl
  | delete storable d o => exact (delete_tells hb storable d o session).owes rfl
  | find storable query o =>
    exact owes_of_quiet (quiet_find hb storable query o) (g := .records) rfl rfl
  | count storable query =>
    exact owes_of_quiet (quiet_count hb storable query) (g := .number) rfl rfl

end Steps

section Runs

variable {s : Store Collections} {session : Session Collections} {r : Request}
  {records : List LogRecord}

theorem exists_text_of_auditLine (operation collection : String) (identifier : Document)
    (detail : String) :
    ∃ text, (auditLine operation collection identifier detail true).text = text ++ "-> true" := by
  have hend : " -> " ++ boolText true = " " ++ "-> true" := rfl
  refine ⟨operation ++ " " ++ collection ++ " " ++ identifier.text ++ detail ++ " ", ?_⟩
  rw [auditLine, String.append_assoc, hend, ← String.append_assoc]

theorem Audited.exists_text_of_writes {c after : Collections}
    (h : s.Audited r (.ok (.flag true)) records) (hw : s.Writes c r after) :
    ∃ record text, records = [record] ∧ record.text = text ++ "-> true" := by
  cases h with
  | created | updated | deleted =>
    obtain ⟨text, htext⟩ := exists_text_of_auditLine _ _ _ _
    exact ⟨_, text, rfl, htext⟩
  | read hread => cases hw <;> cases hread

theorem run_audited (hb : s.backend = .memory) (r : Request) (session : Session Collections) :
    ∃ records, s.Audited r (s.run r session).result records ∧
      (s.run r session).session.trail = session.trail ++ records ∧
      ((s.run r session).session.contents ≠ session.contents →
        ∃ record text, records = [record] ∧ record.text = text ++ "-> true") := by
  obtain ⟨records, haudited, htrail⟩ := run_owes (hb ▸ Backend.isQuiet_memory) r session
  refine ⟨records, haudited, htrail, fun hchanged => ?_⟩
  obtain ⟨-, hsame⟩ | ⟨htrue, hw⟩ := run_amounts hb r session
  · exact absurd hsame hchanged
  · rw [htrue] at haudited
    exact haudited.exists_text_of_writes hw

/-- From any contents on, the trail grows by what each request owes it, in the order of the
requests: one record of a save or a deletion that is answered, which names the collection, the
identifier and the answer, and nothing of one that fails, nor of a request that does not write. Of a
request that changes the contents, the record ends in true. -/
theorem runAll_audited (hb : s.backend = .memory) (rs : List Request)
    (session : Session Collections) :
    ∃ trails : List (List LogRecord),
      (s.runAll rs session).trail = session.trail ++ trails.flatten ∧
        trails.length = rs.length ∧
        ∀ front r back, rs = front ++ r :: back →
          let before := s.runAll front session
          let outcome := s.run r before
          ∃ records, trails[front.length]? = some records ∧
            s.Audited r outcome.result records ∧
            (outcome.session.contents ≠ before.contents →
              ∃ record text, records = [record] ∧ record.text = text ++ "-> true") := by
  induction rs generalizing session with
  | nil => exact ⟨[], (List.append_nil _).symm, rfl, fun front r back h => by simp at h⟩
  | cons q rs ih =>
    obtain ⟨records, haudited, htrail, hchanged⟩ := run_audited hb q session
    obtain ⟨trails, hflatten, hlength, hparts⟩ := ih (s.run q session).session
    refine ⟨records :: trails, ?_, by rw [List.length_cons, hlength, List.length_cons], ?_⟩
    · rw [List.flatten_cons, ← List.append_assoc, ← htrail]
      exact hflatten
    · intro front r back h
      cases front with
      | nil =>
        obtain ⟨rfl, -⟩ := List.cons.inj h
        exact ⟨records, rfl, haudited, hchanged⟩
      | cons first front =>
        obtain ⟨rfl, hrest⟩ := List.cons.inj h
        exact hparts front r back hrest

/-- A codec that keeps years under another name: a taken identifier as a failure and as an answer, a
load that fails, an update by another identifier, a count, and a deletion before and after there was
something to delete. -/
theorem runAll_audited_films :
    let s : Store Collections :=
      { new Backend.memory with
        codec := .rename "year" "released"
        storables := ⟨[⟨"film", "films", ["id", "slug"]⟩]⟩ }
    let alien : Document := [("id", .int32 1), ("slug", .string "alien"), ("year", .int32 1979)]
    let remove : Request := .delete "film" [("id", .int32 1)] { throwIfMissing := false }
    let front : List Request := [
      .save "film" alien { isNew := true }, .save "film" alien { isNew := true },
      .save "film" alien { isNew := true, throwIfExists := some false },
      .load "film" [("id", .int32 2)] {},
      .save "film" [("slug", .string "alien"), ("year", .undefined), ("cut", .int32 2)] {},
      .count "film" []]
    let session := Session.start Collections.empty
    s.backend = .memory ∧
      (s.runAll (front ++ [remove, remove]) session).trail = [
        .audit "create films \x7b \"id\": 1 \x7d -> true",
        .audit "create films \x7b \"id\": 1 \x7d -> false",
        .audit "update films \x7b \"slug\": \"alien\" \x7d set=1 unset=1 -> true",
        .audit "delete films \x7b \"id\": 1 \x7d -> true",
        .audit "delete films \x7b \"id\": 1 \x7d -> false"] ∧
      (s.run remove (s.runAll front session)).session.contents ≠
        (s.runAll front session).contents ∧
      ∃ (trails : List (List LogRecord)) (record : LogRecord) (text : String),
        (s.runAll (front ++ [remove, remove]) session).trail = session.trail ++ trails.flatten ∧
          trails.length = 8 ∧ trails[6]? = some [record] ∧ record.text = text ++ "-> true" ∧
          s.Audited remove (s.run remove (s.runAll front session)).result [record] := by
  intro s alien remove front session
  have hb : s.backend = .memory := rfl
  have hbefore : (s.runAll front session).contents.size "films" = 1 := by decide +kernel
  have hafter : (s.run remove (s.runAll front session)).session.contents.size "films" = 0 := by
    decide +kernel
  have hchanged : (s.run remove (s.runAll front session)).session.contents ≠
      (s.runAll front session).contents := fun h => by
    rw [h, hbefore] at hafter
    cases hafter
  obtain ⟨trails, hflatten, hlength, hparts⟩ :=
    runAll_audited hb (front ++ [remove, remove]) session
  obtain ⟨records, hrecords, haudited, htrue⟩ := hparts front remove [remove] rfl
  obtain ⟨record, text, rfl, htext⟩ := htrue hchanged
  exact ⟨hb, by decide +kernel, hchanged, trails, record, text, hflatten, hlength, hrecords, htext,
    haudited⟩

end Runs

end Store

end RecordStore
