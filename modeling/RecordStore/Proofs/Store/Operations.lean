import RecordStore.Backend.Memory
import RecordStore.Store.Request

namespace RecordStore

section Monad

variable {σ ε α β : Type} {x : EStateM ε σ α} {f : α → EStateM ε σ β} {s t : σ} {a : α}
  {e : ε}

theorem bind_of_ok (h : x s = .ok a t) : (x >>= f) s = f a t := by
  simp [bind, EStateM.bind, h]

theorem bind_of_error (h : x s = .error e t) : (x >>= f) s = .error e t := by
  simp [bind, EStateM.bind, h]

theorem map_of_ok {g : α → β} (h : x s = .ok a t) : (g <$> x) s = .ok (g a) t := by
  simp [Functor.map, EStateM.map, h]

theorem map_congr {y : EStateM ε σ α} {g : α → β} (h : x s = y s) :
    (g <$> x) s = (g <$> y) s := by
  simp [Functor.map, EStateM.map, h]

theorem map_of_error {g : α → β} (h : x s = .error e t) : (g <$> x) s = .error e t := by
  simp [Functor.map, EStateM.map, h]

theorem liftExcept_of_ok {y : Except ε α} (h : y = .ok a) :
    (liftExcept y : EStateM ε σ α) s = .ok a s := by
  rw [h]
  rfl

theorem liftExcept_of_error {y : Except ε α} (h : y = .error e) :
    (liftExcept y : EStateM ε σ α) s = .error e s := by
  rw [h]
  rfl

end Monad

theorem Identifier.eq_of_ofDocument? {d : Document} {id : Identifier}
    (h : ofDocument? d = some id) : d = [(id.name, id.value)] := by
  unfold ofDocument? at h
  split at h
  · obtain rfl := Option.some.inj h
    rfl
  · cases h

theorem Identifier.eq_of_entry {id : Identifier} {name : String} {v : Value}
    (h : [(name, v)] = [(id.name, id.value)]) : ⟨name, v⟩ = id := by
  cases id
  cases h
  rfl

/-- A record as a selector shapes it. -/
def Storable.shown (t : Storable) (selector : Selector) (d : Document) : Document :=
  ((Store.projectionFor t selector).apply d).pick selector t.identifiers

/-- A store in memory that keeps documents as they are. -/
structure Store.InMemory (s : Store Collections) : Prop where
  backend : s.backend = .memory
  codec : s.codec = .plain

namespace Store

variable {α β : Type} {s : Store Collections} {storable : String} {t : Storable} {d : Document}
  {name : String} {v : Value}

theorem InMemory.identify_eq (hs : s.InMemory) (t : Storable) (d : Document) :
    s.identify t d = t.identifierOf d := by
  unfold identify
  rw [hs.codec]
  cases t.identifierOf d <;> rfl

theorem InMemory.shape_eq (hs : s.InMemory) (t : Storable) (selector : Selector) (d : Document) :
    s.shape t selector d = .ok (d.pick selector t.identifiers) := by
  unfold shape
  rw [hs.codec]
  rfl

theorem InMemory.load_eq (hs : s.InMemory) (ht : s.storables.get storable = .ok t)
    (hd : t.identifierOf d = .ok [(name, v)]) (o : LoadOptions)
    (session : Session Collections) :
    s.load storable d o session =
      match session.contents.read? t.collection ⟨name, v⟩ with
      | some r => .ok (some (t.shown o.selector r)) session
      | none =>
        if o.throwIfMissing then
          .error (.missingFromStore t.collection (Document.text [(name, v)])) session
        else .ok none session := by
  have hid : s.identify t d = .ok [(name, v)] := (hs.identify_eq t d).trans hd
  have hcall : call "read" t.collection (s.backend.read t.collection [(name, v)]
      (projectionFor t o.selector)) session =
      .ok ((session.contents.read? t.collection ⟨name, v⟩).map
        (projectionFor t o.selector).apply) session := by
    rw [hs.backend]
    rfl
  rw [load, bind_of_ok (liftExcept_of_ok ht), bind_of_ok (liftExcept_of_ok hid), bind_of_ok hcall]
  cases session.contents.read? t.collection ⟨name, v⟩ with
  | none => cases o.throwIfMissing <;> rfl
  | some r => exact map_of_ok (liftExcept_of_ok (hs.shape_eq t o.selector _))

theorem call_of_ok {run : BackendM Collections α} {a : α}
    {session after : Session Collections} (h : run session = .ok a after)
    (operation collection : String) : call operation collection run session = .ok a after := by
  rw [call, h]

def written (c? : Option Collections) (fails : Bool) (e : StoreError) (record : Bool → LogRecord)
    (session : Session Collections) : EStateM.Result StoreError (Session Collections) Bool :=
  match c? with
  | some c => .ok true ⟨c, session.log ++ [record true]⟩
  | none => if fails then .error e session else .ok false (session.write [record false])

theorem written_eq {c? : Option Collections} {fails : Bool} {e : StoreError}
    {record : Bool → LogRecord} {session : Session Collections} {run : StoreM Collections Bool}
    (h : run session = .ok c?.isSome ⟨c?.getD session.contents, session.log⟩) :
    (do
      let done ← run
      if !done && fails then throw e
      Session.emit [record done]
      return done : StoreM Collections Bool) session = written c? fails e record session := by
  rw [bind_of_ok h]
  cases c? with
  | none => cases fails <;> rfl
  | some c => cases fails <;> rfl

theorem commit_eq (c? : Option Collections) (session : Session Collections) :
    Backend.commit c? session = .ok c?.isSome ⟨c?.getD session.contents, session.log⟩ := by
  cases c? <;> rfl

theorem save_of_identified {o : SaveOptions} {flags : SaveFlags} {record identifier : Document}
    (ho : o.resolve = .ok flags) (ht : s.storables.get storable = .ok t)
    (hrecord : s.codec.encode d = .ok record) (hid : t.identifierOf record = .ok identifier)
    (session : Session Collections) :
    s.save storable d o session =
      (if o.isNew then s.saveNew t identifier record flags.throwIfExists
        else s.saveExisting t identifier record flags.throwIfMissing : StoreM Collections Bool)
        session := by
  rw [save, bind_of_ok (liftExcept_of_ok ho), bind_of_ok (liftExcept_of_ok ht),
    bind_of_ok (liftExcept_of_ok hrecord), bind_of_ok (liftExcept_of_ok hid)]

theorem saveNew_eq (hb : s.backend = .memory) (t : Storable) (name : String) (v : Value)
    (record : Document) (fails : Bool) (session : Session Collections) :
    s.saveNew t [(name, v)] record fails session =
      written (session.contents.create? t.collection ⟨name, v⟩ record.strip) fails
        (.alreadyExistsInStore t.collection (Document.text [(name, v)]))
        (createRecord t.collection [(name, v)]) session := by
  unfold saveNew
  rw [hb]
  exact written_eq (call_of_ok (commit_eq _ session) _ _)

theorem saveExisting_eq (hb : s.backend = .memory) (t : Storable) (name : String) (v : Value)
    (record : Document) (fails : Bool) (session : Session Collections) :
    s.saveExisting t [(name, v)] record fails session =
      written (session.contents.update? t.collection ⟨name, v⟩
          (Patch.ofDocument (record.erase name))) fails
        (.missingFromStore t.collection (Document.text [(name, v)]))
        (updateRecord t.collection [(name, v)] (Patch.ofDocument (record.erase name))) session := by
  unfold saveExisting
  rw [hb]
  exact written_eq (call_of_ok (commit_eq _ session) _ _)

theorem delete_eq (hb : s.backend = .memory) (ht : s.storables.get storable = .ok t)
    (hid : s.identify t d = .ok [(name, v)]) (o : DeleteOptions)
    (session : Session Collections) :
    s.delete storable d o session =
      written (session.contents.delete? t.collection ⟨name, v⟩) o.throwIfMissing
        (.missingFromStore t.collection (Document.text [(name, v)]))
        (deleteRecord t.collection [(name, v)]) session := by
  rw [delete, bind_of_ok (liftExcept_of_ok ht), bind_of_ok (liftExcept_of_ok hid), hb]
  exact written_eq (call_of_ok (commit_eq _ session) _ _)

/-- An operation that leaves the contents as they are and comes to `y`. -/
def Reads (c : Collections) (x : StoreM Collections α) (y : Except StoreError α) : Prop :=
  ∀ log, ∃ after, x ⟨c, log⟩ = (liftExcept y : StoreM Collections α) ⟨c, after⟩

variable {c : Collections} {e : StoreError}

theorem reads_lift (y : Except StoreError α) : Reads c (liftExcept y) y := fun log => ⟨log, rfl⟩

theorem Reads.bind {x : StoreM Collections α} {y : Except StoreError α}
    {f : α → StoreM Collections β} {g : α → Except StoreError β} (hx : Reads c x y)
    (hf : ∀ a, Reads c (f a) (g a)) : Reads c (x >>= f) (y >>= g) := by
  intro log
  obtain ⟨after, h⟩ := hx log
  cases y with
  | error e => exact ⟨after, bind_of_error h⟩
  | ok a =>
    obtain ⟨last, ha⟩ := hf a after
    exact ⟨last, (bind_of_ok h).trans ha⟩

theorem Reads.map {x : StoreM Collections α} {y : Except StoreError α} (hx : Reads c x y)
    (g : α → β) : Reads c (g <$> x) (g <$> y) := by
  intro log
  obtain ⟨after, h⟩ := hx log
  cases y with
  | error e => exact ⟨after, map_of_error h⟩
  | ok a => exact ⟨after, map_of_ok h⟩

theorem Reads.eq_ok {x : StoreM Collections α} {y : Except StoreError α} {a : α}
    {session after : Session Collections} (hx : Reads session.contents x y)
    (h : x session = .ok a after) : y = .ok a := by
  obtain ⟨last, hlast⟩ := hx session.log
  have hboth : (liftExcept y : StoreM Collections α) ⟨session.contents, last⟩ = .ok a after :=
    hlast.symm.trans h
  cases y with
  | error e => exact nomatch hboth
  | ok b => exact congrArg Except.ok (EStateM.Result.ok.inj hboth).1

def Answers (s : Store Collections) (c : Collections) (r : Request)
    (a : Except StoreError Answer) : Prop :=
  ∀ log, ∃ after, s.run r ⟨c, log⟩ = ⟨a, ⟨c, after⟩⟩

theorem Answers.result_eq {r : Request} {a : Except StoreError Answer} (h : s.Answers c r a) :
    (s.run r (Session.start c)).result = a := by
  obtain ⟨after, hrun⟩ := h []
  exact congrArg Outcome.result hrun

theorem Reads.answers {x : StoreM Collections α} {y : Except StoreError α} (hx : Reads c x y)
    {r : Request} {g : α → Answer} (hr : s.answer r = g <$> x) : s.Answers c r (g <$> y) := by
  intro log
  obtain ⟨after, h⟩ := hx.map g log
  refine ⟨after, ?_⟩
  rw [run, hr, h]
  cases y <;> rfl

theorem InMemory.encode_eq (hs : s.InMemory) (d : Document) : s.codec.encode d = .ok d := by
  rw [hs.codec]
  rfl

theorem reads_conditions (s : Store Collections) (query : Document) :
    Reads c (s.conditions query) (s.codec.encode query >>= s.rules.compile) := by
  refine (reads_lift _).bind fun query => ?_
  exact fun log => ⟨log ++ QueryRules.compileRecords (s.rules.compile query), bind_of_ok rfl⟩

theorem reads_count (hb : s.backend = .memory) (storable : String) (query : Document) :
    Reads c (s.count storable query) (do
      let t ← s.storables.get storable
      let es ← s.codec.encode query >>= s.rules.compile
      return (c.hits t.collection es).length) := by
  refine (reads_lift _).bind fun t => (s.reads_conditions query).bind fun es => ?_
  intro log
  refine ⟨log ++ c.matchRecords t.collection es, ?_⟩
  rw [hb]
  rfl

theorem InMemory.reads_count (hs : s.InMemory) (storable : String) (query : Document) :
    Reads c (s.count storable query) (do
      let t ← s.storables.get storable
      let es ← s.rules.compile query
      return (c.hits t.collection es).length) := by
  have h := Store.reads_count (c := c) hs.backend storable query
  rw [hs.encode_eq] at h
  exact h

theorem InMemory.shapeAll_eq (hs : s.InMemory) (t : Storable) (selector : Selector)
    (ds : List Document) :
    s.shapeAll t selector ds = .ok (ds.map fun d => d.pick selector t.identifiers) := by
  induction ds with
  | nil => rfl
  | cons d ds ih =>
    rw [shapeAll, hs.shape_eq, ih]
    rfl

theorem memory_find_eq (c : Collections) (collection : String) (es : List Expression)
    (p : Projection) (params : FindParams) (log : List LogRecord) :
    ∃ after, Backend.memory.find collection es p params ⟨c, log⟩ =
      .ok (c.find collection es p params) ⟨c, after⟩ := by
  have hget : (Session.getContents : BackendM Collections Collections) ⟨c, log⟩ =
      .ok c ⟨c, log⟩ := rfl
  cases h : c.records? collection with
  | none =>
    -- a collection that was never written is searched as an empty one
    have hf : c.find collection es p params = [] := by
      cases hl : params.limit <;>
        simp [Collections.find, Collections.hits, Collections.records, h, SortKey.sort,
          FindParams.page, hl]
    refine ⟨log, (bind_of_ok hget).trans ?_⟩
    rw [h, hf]
    rfl
  | some ds =>
    refine ⟨log ++ c.matchRecords collection es ++ [c.findRecord collection es],
      (bind_of_ok hget).trans ?_⟩
    rw [h]
    rfl

theorem reads_find (hb : s.backend = .memory) (storable : String) (query : Document)
    (o : FindOptions) :
    Reads c (s.find storable query o) (do
      let t ← s.storables.get storable
      let es ← s.codec.encode query >>= s.rules.compile
      let params ← s.findParams o
      s.shapeAll t o.selector (c.find t.collection es (projectionFor t o.selector) params)) := by
  refine (reads_lift _).bind fun t => (s.reads_conditions query).bind fun es =>
    (reads_lift _).bind fun params => ?_
  intro log
  obtain ⟨after, hf⟩ :=
    memory_find_eq c t.collection es (projectionFor t o.selector) params log
  refine ⟨after, ?_⟩
  rw [hb, bind_of_ok (call_of_ok hf _ _)]

theorem InMemory.reads_find (hs : s.InMemory) (storable : String) (query : Document)
    (o : FindOptions) :
    Reads c (s.find storable query o) (do
      let t ← s.storables.get storable
      let es ← s.rules.compile query
      let params ← s.findParams o
      let found := params.page (SortKey.sort params.sort (c.hits t.collection es))
      return found.map (t.shown o.selector)) := by
  have h := Store.reads_find (c := c) hs.backend storable query o
  simp only [hs.encode_eq, hs.shapeAll_eq, Collections.find, List.map_map] at h
  exact h

theorem call_malformed {identifier : Document} (h : Identifier.ofDocument? identifier = none)
    (rest : Identifier → BackendM Collections α) (operation collection : String)
    (session : Session Collections) :
    ∃ log, call operation collection (Backend.identifierOf identifier >>= rest) session =
      .error (.backend ("identifier must have exactly one entry, got " ++ identifier.text))
        ⟨session.contents, log⟩ := by
  have hid : Backend.identifierOf identifier session =
      .error ("identifier must have exactly one entry, got " ++ identifier.text) session := by
    rw [Backend.identifierOf, h]
    rfl
  rw [call, bind_of_error hid]
  exact ⟨_, rfl⟩

theorem reads_load (hb : s.backend = .memory) (storable : String) (d : Document)
    (o : LoadOptions) :
    Reads c (s.load storable d o) (do
      let t ← s.storables.get storable
      let identifier ← s.identify t d
      match Identifier.ofDocument? identifier with
      | none => throw (.backend ("identifier must have exactly one entry, got " ++ identifier.text))
      | some id =>
        match c.read? t.collection id with
        | some r => some <$> s.shape t o.selector ((projectionFor t o.selector).apply r)
        | none =>
          if o.throwIfMissing then throw (.missingFromStore t.collection identifier.text)
          else return none) := by
  refine (reads_lift _).bind fun t => (reads_lift _).bind fun identifier => ?_
  rw [hb]
  cases hid : Identifier.ofDocument? identifier with
  | none =>
    intro log
    obtain ⟨after, h⟩ := call_malformed hid (fun id => do
      return ((← Session.getContents).read? t.collection id).map
        (projectionFor t o.selector).apply) "read" t.collection ⟨c, log⟩
    exact ⟨after, bind_of_error h⟩
  | some id =>
    obtain rfl := Identifier.eq_of_ofDocument? hid
    intro log
    have hcall : call "read" t.collection (Backend.memory.read t.collection
        [(id.name, id.value)] (projectionFor t o.selector)) ⟨c, log⟩ =
        .ok ((c.read? t.collection id).map (projectionFor t o.selector).apply) ⟨c, log⟩ := rfl
    rw [bind_of_ok hcall]
    dsimp only
    cases c.read? t.collection id with
    | some r => exact (reads_lift _).map some log
    | none => cases o.throwIfMissing <;> exact ⟨log, rfl⟩

theorem InMemory.bind_unidentified (hs : s.InMemory)
    (h : (do (← s.storables.get storable).identifierOf d) = .error e)
    (rest : Storable → Document → StoreM Collections α) (session : Session Collections) :
    (do
      let t ← liftExcept (s.storables.get storable)
      let identifier ← liftExcept (s.identify t d)
      rest t identifier : StoreM Collections α) session = .error e session := by
  cases hget : s.storables.get storable with
  | error e =>
    rw [hget] at h
    cases h
    rfl
  | ok t =>
    rw [hget] at h
    have hid : s.identify t d = .error e := (hs.identify_eq t d).trans h
    exact (bind_of_ok rfl).trans (bind_of_error (liftExcept_of_error hid))

theorem InMemory.save_eq (hs : s.InMemory) {o : SaveOptions} {flags : SaveFlags}
    (ho : o.resolve = .ok flags) (session : Session Collections) :
    s.save storable d o session = (do
      let t ← liftExcept (s.storables.get storable)
      let identifier ← liftExcept (s.identify t d)
      if o.isNew then s.saveNew t identifier d flags.throwIfExists
      else s.saveExisting t identifier d flags.throwIfMissing : StoreM Collections Bool)
        session := by
  rw [save, bind_of_ok (liftExcept_of_ok ho)]
  cases hget : s.storables.get storable with
  | error e => rfl
  | ok t =>
    have hd : s.codec.encode d = .ok d := by
      rw [hs.codec]
      rfl
    refine ((bind_of_ok rfl).trans (bind_of_ok (liftExcept_of_ok hd))).trans ?_
    refine Eq.trans ?_ (bind_of_ok rfl).symm
    rw [hs.identify_eq]

end Store

end RecordStore
