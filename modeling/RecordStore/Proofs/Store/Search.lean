import RecordStore.Proofs.Sort.Insertion
import RecordStore.Proofs.Sort.Merged
import RecordStore.Proofs.Store.Operations

namespace RecordStore

namespace Store

variable {s : Store Collections} {storable : String} {query : Document}

/-- The engine's answer to a search: the records that satisfy the conditions, in an order in which
none precedes an earlier one and records that tie keep their places, then the window, and only then
the projection. -/
theorem memory_find_sorted (c : Collections) (name : String) (es : List Expression)
    (p : Projection) (params : FindParams)
    (h : ∀ k ∈ params.sort, ∀ d ∈ c.records name, k.Suits d) (log : List LogRecord) :
    let hits := (c.records name).filter fun d => d.satisfies es
    ∃ (sorted : List Document) (after : List LogRecord),
      let rest := sorted.drop params.skip
      Backend.memory.find name es p params ⟨c, log⟩ =
          .ok ((params.limit.elim rest rest.take).map p.apply) ⟨c, after⟩ ∧
        sorted.Perm hits ∧
        (sorted.Pairwise fun a b => SortKey.compareAll params.sort a b ≠ .gt) ∧
        (∀ d ∈ hits, sorted.filter (SortKey.ties params.sort d) =
          hits.filter (SortKey.ties params.sort d)) ∧
        ∀ a b, SortKey.compareAll params.sort a b = .gt ↔ SortKey.Precedes params.sort b a := by
  intro hits
  have ho : SortKey.Orders params.sort (· ∈ hits) :=
    SortKey.transCmp_compareAll fun k hk d hd => h k hk d (List.mem_filter.mp hd).1
  obtain ⟨after, hfind⟩ := memory_find_eq c name es p params log
  refine ⟨SortKey.sort params.sort hits, after, ?_, SortKey.perm_sort _ _,
    SortKey.pairwise_sort ho fun _ hd => hd,
    fun _ hx => SortKey.filter_sort ho hx fun _ hd => hd,
    fun _ _ => SortKey.compareAll_eq_gt_iff⟩
  rw [hfind, Collections.find, FindParams.page]
  cases params.limit <;> rfl

/-- Two films of one year and title, one without a year, and a page of which the projection leaves
nothing that orders it. -/
theorem memory_find_sorted_films :
    let film (id : Int32) (title : String) (year : Value) : Document :=
      [("id", .int32 id), ("title", .string title), ("year", year)]
    let c : Collections := ⟨[("films", [[("id", .int32 1), ("title", .string "alien")],
      film 2 "heat" (.int32 1995), film 3 "casino" (.int64 1995), film 4 "brazil" (.int32 1985),
      film 5 "casino" (.int32 1995), film 6 "stalker" .null])]⟩
    let es : List Expression := [.compare "id" .notEqual (.int32 4)]
    let params : FindParams := ⟨[⟨"year", .descending⟩, ⟨"title", .ascending⟩], 1, some 3⟩
    (∀ k ∈ params.sort, ∀ d ∈ c.records "films", k.Suits d) ∧
      ∃ (sorted : List Document) (after : List LogRecord),
        let window := ((sorted.drop 1).take 3).map (Projection.paths ["id"]).apply
        Backend.memory.find "films" es (.paths ["id"]) params ⟨c, []⟩ = .ok window ⟨c, after⟩ ∧
          (sorted.Pairwise fun a b => SortKey.compareAll params.sort a b ≠ .gt) ∧
          window = [[("id", .int32 5)], [("id", .int32 2)], [("id", .int32 6)]] := by
  intro film c es params
  have h : ∀ k ∈ params.sort, ∀ d ∈ c.records "films", k.Suits d := by decide
  obtain ⟨sorted, after, hfind, -, hsorted, -⟩ :=
    memory_find_sorted c "films" es (.paths ["id"]) params h []
  refine ⟨h, sorted, after, hfind, hsorted, ?_⟩
  obtain ⟨log, hrun⟩ : ∃ log, Backend.memory.find "films" es (.paths ["id"]) params ⟨c, []⟩ =
      .ok [[("id", .int32 5)], [("id", .int32 2)], [("id", .int32 6)]] ⟨c, log⟩ := ⟨_, rfl⟩
  rw [hrun] at hfind
  injection hfind with hwindow
  exact hwindow.symm

theorem findParams_of_plain {σ : Type} {s : Store σ} (hs : s.codec = .plain) (o : FindOptions) :
    s.findParams o = .ok ⟨SortKey.merged o.sort, o.skip.getD 0,
      some (min (o.limit.getD s.maxLimit) s.maxLimit)⟩ := by
  rw [findParams, hs]
  change (SortKey.ofDocument (SortKey.toDocument o.sort)).mapError SortFault.toError >>= _ = _
  rw [SortKey.ofDocument_toDocument]
  rfl

def counted (s : Store Collections) (c : Collections) (storable : String) (query : Document) :
    Except StoreError Nat := do
  let t ← s.storables.get storable
  let es ← s.rules.compile query
  return (c.hits t.collection es).length

/-- All searches with the same keys and the same selector are windows on one row of records, as
many as are counted. What the store refuses to count it refuses to search. -/
theorem InMemory.finds_windows (hs : s.InMemory) (c : Collections) (storable : String)
    (query : Document) :
    match s.counted c storable query with
    | .error e => ∀ o, s.Answers c (.find storable query o) (.error e)
    | .ok n => ∀ selector keys, ∃ row : List Document, row.length = n ∧
        ∀ skip limit, s.Answers c (.find storable query ⟨selector, keys, skip, limit⟩)
          (.ok (.records ((row.drop (skip.getD 0)).take
            (min (limit.getD s.maxLimit) s.maxLimit)))) := by
  have hfind (o : FindOptions) := (hs.reads_find (c := c) storable query o).answers (s := s)
    (r := .find storable query o) (g := .records) rfl
  unfold counted
  cases ht : s.storables.get storable with
  | error e =>
    simp only [ht] at hfind
    exact hfind
  | ok t =>
    cases hes : s.rules.compile query with
    | error e =>
      simp only [ht, hes] at hfind
      exact hfind
    | ok es =>
      simp only [ht, hes] at hfind
      intro selector keys
      let row := SortKey.sort (SortKey.merged keys) (c.hits t.collection es)
      refine ⟨row.map (t.shown selector), ?_, fun skip limit => ?_⟩
      · rw [List.length_map, SortKey.length_sort]
      · have h := hfind ⟨selector, keys, skip, limit⟩
        rw [findParams_of_plain hs.codec] at h
        rw [← List.map_drop, ← List.map_take]
        exact h

/-- A search is refused if and only if counting is, with the same error. Otherwise it has as many
records as are left after those skipped, but no more than the limits allow, and two pages that
adjoin are the page of their joint size. -/
theorem InMemory.find_agrees_with_count_and_pages_tile (hs : s.InMemory) (c : Collections)
    (storable : String) (query : Document) :
    match s.counted c storable query with
    | .error e => s.Answers c (.count storable query) (.error e) ∧
        ∀ o, s.Answers c (.find storable query o) (.error e)
    | .ok n => s.Answers c (.count storable query) (.ok (.number n)) ∧
        ∀ o : FindOptions,
          (∃ ds, s.Answers c (.find storable query o) (.ok (.records ds)) ∧
            ds.length = min (min (o.limit.getD s.maxLimit) s.maxLimit) (n - o.skip.getD 0)) ∧
          ∀ k l m, l + m ≤ s.maxLimit → ∃ front back,
            s.Answers c (.find storable query { o with skip := some k, limit := some l })
                (.ok (.records front)) ∧
              s.Answers c (.find storable query { o with skip := some (k + l), limit := some m })
                (.ok (.records back)) ∧
              s.Answers c (.find storable query { o with skip := some k, limit := some (l + m) })
                (.ok (.records (front ++ back))) := by
  have hcount : s.Answers c (.count storable query)
      (.number <$> s.counted c storable query) := (hs.reads_count storable query).answers rfl
  have hwindows := hs.finds_windows c storable query
  generalize s.counted c storable query = counted at hcount hwindows
  cases counted with
  | error e => exact ⟨hcount, hwindows⟩
  | ok n =>
    refine ⟨hcount, fun o => ?_⟩
    obtain ⟨row, hrow, hfind⟩ := hwindows o.selector o.sort
    refine ⟨⟨_, hfind o.skip o.limit, ?_⟩, fun k l m hlm => ?_⟩
    · rw [List.length_take, List.length_drop, hrow]
    · have hwindow (skip size : Nat) (h : size ≤ s.maxLimit) :
          s.Answers c (.find storable query ⟨o.selector, o.sort, some skip, some size⟩)
            (.ok (.records ((row.drop skip).take size))) := by
        have h' := hfind (some skip) (some size)
        rw [Option.getD_some, Option.getD_some, Nat.min_eq_left h] at h'
        exact h'
      refine ⟨_, _, hwindow k l (by omega), hwindow (k + l) m (by omega), ?_⟩
      rw [← List.drop_drop, ← List.take_add]
      exact hwindow k (l + m) hlm

/-- Three of four films, on one page and on two. -/
theorem InMemory.find_agrees_with_count_and_pages_tile_films :
    let s : Store Collections :=
      { new Backend.memory with storables := ⟨[⟨"film", "films", ["id"]⟩]⟩, maxLimit := 3 }
    let film (id year : Int32) : Document := [("id", .int32 id), ("year", .int32 year)]
    let c : Collections := ⟨[("films", [film 1 1979, film 2 1995, film 3 1979, film 4 1986])]⟩
    let page (skip limit : Nat) : Request :=
      .find "film" [] { sort := [⟨"year", .descending⟩], skip := some skip, limit := some limit }
    s.InMemory ∧ 2 + 1 ≤ s.maxLimit ∧ s.Answers c (.count "film" []) (.ok (.number 4)) ∧
      s.Answers c (page 1 2) (.ok (.records [film 4 1986, film 1 1979])) ∧
      s.Answers c (page 3 1) (.ok (.records [film 3 1979])) ∧
      s.Answers c (page 1 3) (.ok (.records [film 4 1986, film 1 1979, film 3 1979])) := by
  intro s film c page
  have hs : s.InMemory := ⟨rfl, rfl⟩
  have hlm : 2 + 1 ≤ s.maxLimit := by decide
  obtain ⟨hcount, hfind⟩ := hs.find_agrees_with_count_and_pages_tile c "film" []
  obtain ⟨front, back, hfront, hback, hboth⟩ :=
    (hfind { sort := [⟨"year", .descending⟩] }).2 1 2 1 hlm
  obtain rfl : [film 4 1986, film 1 1979] = front :=
    Answer.records.inj (Except.ok.inj hfront.result_eq)
  obtain rfl : [film 3 1979] = back := Answer.records.inj (Except.ok.inj hback.result_eq)
  exact ⟨hs, hlm, hcount, hfront, hback, hboth⟩

def searchBy {σ : Type} (s : Store σ) (storable : String) (query : Document) (selector : Selector)
    (params : FindParams) : StoreM σ (List Document) := do
  let t ← liftExcept (s.storables.get storable)
  let es ← s.conditions query
  let ds ← call "find" t.collection
    (s.backend.find t.collection es (projectionFor t selector) params)
  liftExcept (s.shapeAll t selector ds)

theorem find_eq_searchBy {σ : Type} {s : Store σ} {o : FindOptions} {params : FindParams}
    (h : s.findParams o = .ok params) (storable : String) (query : Document) :
    s.find storable query o = s.searchBy storable query o.selector params := by
  rw [find, h]
  rfl

/-- The keys that a search hands to the engine have one key for each field, in the place of the
first one that the caller gave and with the direction of the last. They order records as the
caller's do if and only if the first and the last key for every field agree. -/
theorem find_keeps_order_iff {σ : Type} {s : Store σ} (hs : s.codec = .plain) (o : FindOptions) :
    ∃ params : FindParams,
      (∀ storable query, s.find storable query o = s.searchBy storable query o.selector params) ∧
      (params.sort.map SortKey.field).Nodup ∧
      (∀ p, (params.sort.map SortKey.field).find? p = (o.sort.map SortKey.field).find? p) ∧
      (∀ name, params.sort.find? (·.field == name) = o.sort.reverse.find? (·.field == name)) ∧
      ((∀ a b, SortKey.compareAll params.sort a b = SortKey.compareAll o.sort a b) ↔
        ∀ name, o.sort.find? (·.field == name) = o.sort.reverse.find? (·.field == name)) := by
  have hparams := findParams_of_plain hs o
  refine ⟨_, find_eq_searchBy hparams, SortKey.nodup_fields_merged o.sort, fun p => ?_,
    fun name => ?_, SortKey.compareAll_merged_iff o.sort⟩
  · exact SortKey.find?_fields_merged p o.sort
  · exact SortKey.find?_merged name o.sort

/-- A field that is given twice with one direction. -/
theorem find_keeps_order_films :
    let s : Store Collections := new Backend.memory
    let o : FindOptions :=
      { sort := [⟨"year", .descending⟩, ⟨"by.name", .ascending⟩, ⟨"year", .descending⟩] }
    s.codec = .plain ∧ ∃ params : FindParams,
      (∀ storable query, s.find storable query o = s.searchBy storable query o.selector params) ∧
      ∀ a b, SortKey.compareAll params.sort a b = SortKey.compareAll o.sort a b := by
  intro s o
  have hs : s.codec = .plain := rfl
  obtain ⟨params, hfind, -, -, -, hiff⟩ := find_keeps_order_iff hs o
  refine ⟨hs, params, hfind, hiff.mpr fun name => ?_⟩
  by_cases hyear : "year" = name
  · simp [o, hyear]
  · simp [o, hyear, List.find?_cons]

/-- Of two films the older one comes first for the caller and last for the engine. -/
theorem find_turns_order :
    let s : Store Collections := new Backend.memory
    let o : FindOptions := { sort := [⟨"year", .ascending⟩, ⟨"year", .descending⟩] }
    let a : Document := [("year", .int32 1979)]
    let b : Document := [("year", .int32 1986)]
    ∃ params, s.codec = .plain ∧ s.findParams o = .ok params ∧
      SortKey.compareAll o.sort a b = .lt ∧ SortKey.compareAll params.sort a b = .gt :=
  ⟨_, rfl, rfl, rfl, rfl⟩

end Store

end RecordStore
