import RecordStore.Proofs.Query.Parsed
import RecordStore.Proofs.Value.Equality

namespace RecordStore

theorem bind_eq_error {ε α β : Type} {x : Except ε α} {f : α → Except ε β} {e : ε} :
    (x >>= f) = .error e ↔ x = .error e ∨ ∃ a, x = .ok a ∧ f a = .error e := by
  cases x <;> simp [bind, Except.bind]

theorem eq_error_of_bind_pure {ε α β : Type} {x : Except ε α} {f : α → β} {e : ε}
    (h : (x >>= fun a => pure (f a)) = .error e) : x = .error e := by
  obtain h | ⟨a, -, h⟩ := bind_eq_error.mp h
  · exact h
  · cases h

theorem map_eq_error {ε α β : Type} {x : Except ε α} {f : α → β} {e : ε} :
    x.map f = .error e ↔ x = .error e := by
  cases x <;> simp [Except.map]

theorem Operator.eq_of_soften_nestedList {op : Operator} {v : Value}
    (ha : (op.soften v).arity = .nestedList) : op.soften v = op := by
  cases op with
  | not | isIn | notIn => cases v <;> exact nomatch ha
  | _ => rfl

namespace QueryRules

variable {r : QueryRules} {depth : Nat} {level : Document} {fault : QueryFault}

theorem parseValue_document_eq_error {d : Document} :
    r.parseValue depth (.document d) = .error fault ↔
      r.maxDepth < depth ∧ .tooDeep r.maxDepth = fault ∨
      depth ≤ r.maxDepth ∧
        (d.OnlyAttributes ∧ r.parseFields depth d d = .error fault ∨
          d.OnlyOperators ∧ r.parseClauses depth d d = .error fault ∨
          (¬ d.OnlyAttributes ∧ ¬ d.OnlyOperators) ∧ .mixedLevel d = fault) := by
  rw [parseValue]
  by_cases hd : r.maxDepth < depth
  · simp [hd, Nat.not_le.mpr hd]
  · rw [if_neg hd]
    have hle : depth ≤ r.maxDepth := Nat.le_of_not_lt hd
    obtain ⟨hk, rfl⟩ | ⟨hk, hne, ha⟩ | ⟨hk, hne, ho⟩ | ⟨hk, ha, ho⟩ := LevelKind.of_cases d <;>
      simp only [hk]
    · have ha : Document.OnlyAttributes [] := fun _ he => absurd he List.not_mem_nil
      simp [hd, ha, parseFields, parseClauses]
    · simp [hd, hle, ha, Document.not_onlyOperators hne ha, map_eq_error]
    · have ha : ¬ d.OnlyAttributes := fun ha => Document.not_onlyOperators hne ha ho
      simp [hd, hle, ha, ho, map_eq_error]
    · simp [hd, hle, ha, ho]

theorem parseValue_array_eq_error {items : List Value} :
    r.parseValue depth (.array items) = .error fault ↔
      r.maxInSet < items.length ∧ .implicitSetTooLarge r.maxInSet = fault := by
  rw [parseValue]
  by_cases h : r.maxInSet < items.length <;> simp [h]

theorem parseValue_ne_error_of_isPlain {v : Value} (h : v.IsPlain) :
    r.parseValue depth v ≠ .error fault := by
  rw [(parseValue_eq_ok_of_isPlain h).mpr rfl]
  exact nofun

theorem parseFields_cons_eq_error {name : String} {v : Value} {entries : List (String × Value)}
    (h : r.parseFields depth level ((name, v) :: entries) = .error fault) :
    name = "" ∧ .emptyName level = fault ∨ r.parseValue (depth + 1) v = .error fault ∨
      r.parseFields depth level entries = .error fault := by
  rw [parseFields] at h
  by_cases hn : name = ""
  · simp only [hn, if_true, throw, throwThe, MonadExceptOf.throw, bind, Except.bind,
      Except.error.injEq] at h
    exact .inl ⟨hn, h⟩
  · simp only [hn, if_false] at h
    obtain h | ⟨node, -, h⟩ := bind_eq_error.mp h
    · exact .inr (.inl h)
    · exact .inr (.inr (eq_error_of_bind_pure h))

theorem parseItems_cons_eq_error {v : Value} {items : List Value}
    (h : r.parseItems depth (v :: items) = .error fault) :
    r.parseValue depth v = .error fault ∨ r.parseItems depth items = .error fault := by
  rw [parseItems] at h
  obtain h | ⟨node, -, h⟩ := bind_eq_error.mp h
  · exact .inl h
  · exact .inr (eq_error_of_bind_pure h)

inductive FailsClause (r : QueryRules) (depth : Nat) (level : Document) (token : String)
    (v : Value) (fault : QueryFault) : Prop
  | unknown (hop : r.vocabulary.normalize? token v = none)
      (hf : .unknownOperator token level = fault)
  | object {d : Document} {op : Operator} (hop : r.vocabulary.normalize? token v = some op)
      (ha : op.arity = .scalar) (hv : v = .document d) (hf : .unexpectedObject token level = fault)
  | large {items : List Value} {op : Operator} (hop : r.vocabulary.normalize? token v = some op)
      (ho : op = .isIn ∨ op = .notIn) (hv : v = .array items) (hs : r.maxInSet < items.length)
      (hf : .setTooLarge op r.maxInSet level = fault)
  | lone {op : Operator} (hop : r.vocabulary.normalize? token v = some op)
      (ha : op.arity = .nestedList) (hv : v.isArray = false)
      (hf : .expectedArray token level = fault)
  | inside {op : Operator} (hop : r.vocabulary.normalize? token v = some op)
      (ha : op.arity = .nested) (h : r.parseValue (depth + 1) v = .error fault)
  | among {items : List Value} {op : Operator} (hop : r.vocabulary.normalize? token v = some op)
      (ha : op.arity = .nestedList) (hv : v = .array items)
      (h : r.parseItems (depth + 1) items = .error fault)

theorem failsClause_of_checkScalar {token : String} {op : Operator} {v : Value}
    (hop : r.vocabulary.normalize? token v = some op) (ha : op.arity = .scalar)
    (h : r.checkScalar level token op v = .error fault) :
    r.FailsClause depth level token v fault := by
  cases v with
  | document d =>
    exact .object hop ha rfl (Except.error.inj h)
  | array items =>
    rw [checkScalar] at h
    split at h
    · rename_i hs
      exact .large hop hs.1 rfl hs.2 (Except.error.inj h)
    · cases h
  | _ => cases h

theorem parseClauses_cons_eq_error {token : String} {v : Value} {entries : List (String × Value)}
    (h : r.parseClauses depth level ((token, v) :: entries) = .error fault) :
    r.FailsClause depth level token v fault ∨
      r.parseClauses depth level entries = .error fault := by
  rw [parseClauses] at h
  cases hop : r.vocabulary.normalize? token v with
  | none =>
    rw [hop] at h
    exact .inl (.unknown hop (Except.error.inj h))
  | some op =>
    simp only [hop] at h
    cases ha : op.arity with
    | scalar =>
      simp only [ha] at h
      obtain h | ⟨clause, -, h⟩ := bind_eq_error.mp h
      · exact .inl (failsClause_of_checkScalar hop ha h)
      · exact .inr (eq_error_of_bind_pure h)
    | nested =>
      simp only [ha] at h
      obtain h | ⟨clause, -, h⟩ := bind_eq_error.mp h
      · exact .inl (.inside hop ha (map_eq_error.mp h))
      · exact .inr (eq_error_of_bind_pure h)
    | nestedList =>
      simp only [ha] at h
      cases v with
      | array items =>
        obtain h | ⟨clause, -, h⟩ := bind_eq_error.mp h
        · exact .inl (.among hop ha rfl (map_eq_error.mp h))
        · exact .inr (eq_error_of_bind_pure h)
      | _ => exact .inl (.lone hop ha rfl (Except.error.inj h))

/-- The values that are read as queries of their own at a level: what attributes stand for, what
stands behind an operator on one sub-query, and the items behind an operator on several. -/
inductive Asks (r : QueryRules) (level : Document) : Value → Prop
  | field {name : String} {v : Value} (hk : level.OnlyAttributes) (h : (name, v) ∈ level) :
      Asks r level v
  | quantified {token : String} {v : Value} {op : Operator} (hk : level.OnlyOperators)
      (h : (token, v) ∈ level) (hop : r.vocabulary.normalize? token v = some op)
      (ha : op.arity = .nested) : Asks r level v
  | alternative {token : String} {items : List Value} {v : Value} {op : Operator}
      (hk : level.OnlyOperators) (h : (token, .array items) ∈ level)
      (hop : r.vocabulary.normalize? token (.array items) = some op) (ha : op.arity = .nestedList)
      (hv : v ∈ items) : Asks r level v

/-- The levels of a query that the parser comes to, each with its depth. It goes on from a level
unless that level is itself too deep, which the query's own level never is. -/
inductive Reaches (r : QueryRules) (query : Document) : Nat → Document → Prop
  | root : Reaches r query 1 query
  | inner {depth : Nat} {d e : Document} (h : Reaches r query depth d)
      (hd : depth = 1 ∨ depth ≤ r.maxDepth) (he : r.Asks d (.document e)) :
      Reaches r query (depth + 1) e

inductive Faulty (r : QueryRules) (depth : Nat) (level : Document) : QueryFault → Prop
  | mixedLevel (ha : ¬ level.OnlyAttributes) (ho : ¬ level.OnlyOperators) :
      Faulty r depth level (.mixedLevel level)
  | emptyName (h : "" ∈ level.keys) : Faulty r depth level (.emptyName level)
  | implicitSetTooLarge {items : List Value} (h : r.Asks level (.array items))
      (hs : r.maxInSet < items.length) : Faulty r depth level (.implicitSetTooLarge r.maxInSet)
  | setTooLarge {token : String} {items : List Value} {op : Operator}
      (h : (token, .array items) ∈ level)
      (hop : r.vocabulary.normalize? token (.array items) = some op) (ho : op = .isIn ∨ op = .notIn)
      (hs : r.maxInSet < items.length) : Faulty r depth level (.setTooLarge op r.maxInSet level)
  | unsupportedRoot {token : String} (hd : depth = 1) (h : token ∈ level.keys)
      (hop : ∀ op, r.vocabulary.resolve? token = some op → op.isCombinator = false) :
      Faulty r depth level (.unsupportedRoot token level)
  | unknownOperator {token : String} (h : token ∈ level.keys)
      (hop : r.vocabulary.resolve? token = none) :
      Faulty r depth level (.unknownOperator token level)
  | unexpectedObject {token : String} {d : Document} {op : Operator}
      (h : (token, .document d) ∈ level)
      (hop : r.vocabulary.normalize? token (.document d) = some op) (ha : op.arity = .scalar) :
      Faulty r depth level (.unexpectedObject token level)
  | expectedArray {token : String} {v : Value} {op : Operator} (h : (token, v) ∈ level)
      (hv : v.isArray = false) (hop : r.vocabulary.resolve? token = some op)
      (hc : op.isCombinator = true) : Faulty r depth level (.expectedArray token level)
  | tooDeep (hd : r.maxDepth < depth) : Faulty r depth level (.tooDeep r.maxDepth)

/-- Some level of the query that the parser comes to is at fault. -/
def Blames (r : QueryRules) (query : Document) (fault : QueryFault) : Prop :=
  ∃ depth level, r.Reaches query depth level ∧ r.Faulty depth level fault

variable {query : Document}

mutual

/-- The recursion is that of the parser; it carries along that the level around the value is one
that the parser has come to. -/
theorem blames_of_parseValue (v : Value) {depth : Nat} {level : Document}
    {fault : QueryFault}
    (hr : r.Reaches query depth level)
    (hd : depth = 1 ∨ depth ≤ r.maxDepth) (hv : r.Asks level v)
    (h : r.parseValue (depth + 1) v = .error fault) : r.Blames query fault := by
  cases v with
  | document d =>
    have hd' : r.Reaches query (depth + 1) d := .inner hr hd hv
    obtain ⟨hdeep, rfl⟩ | ⟨hle, ⟨hk, h⟩ | ⟨hk, h⟩ | ⟨⟨ha, ho⟩, rfl⟩⟩ :=
      parseValue_document_eq_error.mp h
    · exact ⟨_, d, hd', .tooDeep hdeep⟩
    · exact blames_of_parseFields d hd' (.inr hle) hk (List.Subset.refl d) h
    · exact blames_of_parseClauses d hd' (.inr hle) hk (List.Subset.refl d) h
    · exact ⟨_, d, hd', .mixedLevel ha ho⟩
  | array items =>
    obtain ⟨hs, rfl⟩ := parseValue_array_eq_error.mp h
    exact ⟨depth, level, hr, .implicitSetTooLarge hv hs⟩
  | _ => exact absurd h (parseValue_ne_error_of_isPlain (by simp [Value.IsPlain]))
termination_by structural v

theorem blames_of_parseFields (entries : List (String × Value)) {depth : Nat} {level : Document}
    {fault : QueryFault}
    (hr : r.Reaches query depth level)
    (hd : depth = 1 ∨ depth ≤ r.maxDepth) (hk : level.OnlyAttributes) (hsub : entries ⊆ level)
    (h : r.parseFields depth level entries = .error fault) : r.Blames query fault := by
  cases entries with
  | nil => exact nomatch h
  | cons e entries =>
    obtain ⟨name, v⟩ := e
    obtain ⟨he, hentries⟩ := List.cons_subset.mp hsub
    obtain ⟨rfl, rfl⟩ | h | h := parseFields_cons_eq_error h
    · exact ⟨depth, level, hr, .emptyName (List.mem_map_of_mem he)⟩
    · exact blames_of_parseValue v hr hd (.field hk he) h
    · exact blames_of_parseFields entries hr hd hk hentries h
termination_by structural entries

theorem blames_of_parseClauses (entries : List (String × Value)) {depth : Nat} {level : Document}
    {fault : QueryFault}
    (hr : r.Reaches query depth level)
    (hd : depth = 1 ∨ depth ≤ r.maxDepth) (hk : level.OnlyOperators) (hsub : entries ⊆ level)
    (h : r.parseClauses depth level entries = .error fault) : r.Blames query fault := by
  cases entries with
  | nil => exact nomatch h
  | cons e entries =>
    obtain ⟨token, v⟩ := e
    obtain ⟨he, hentries⟩ := List.cons_subset.mp hsub
    have hkey : token ∈ level.keys := List.mem_map_of_mem he
    obtain hclause | h := parseClauses_cons_eq_error h
    · cases hclause with
      | unknown hop hf =>
        exact ⟨depth, level, hr, hf ▸ .unknownOperator hkey (Option.map_eq_none_iff.mp hop)⟩
      | object hop ha hv hf =>
        exact ⟨depth, level, hr, hf ▸ .unexpectedObject (hv ▸ he) (hv ▸ hop) ha⟩
      | large hop ho hv hs hf =>
        exact ⟨depth, level, hr, hf ▸ .setTooLarge (hv ▸ he) (hv ▸ hop) ho hs⟩
      | lone hop ha hv hf =>
        obtain ⟨op, hwritten, rfl⟩ := Option.map_eq_some_iff.mp hop
        have hc : op.isCombinator = true :=
          decide_eq_true (Operator.eq_of_soften_nestedList ha ▸ ha)
        exact ⟨depth, level, hr, hf ▸ .expectedArray he hv hwritten hc⟩
      | inside hop ha h => exact blames_of_parseValue v hr hd (.quantified hk he hop ha) h
      | among hop ha hv h =>
        cases v with
        | array items =>
          obtain rfl := Value.array.inj hv
          exact blames_of_parseItems items hr hd (fun i hi => .alternative hk he hop ha hi) h
        | _ => exact nomatch hv
    · exact blames_of_parseClauses entries hr hd hk hentries h
termination_by structural entries

theorem blames_of_parseItems (items : List Value) {depth : Nat} {level : Document}
    {fault : QueryFault}
    (hr : r.Reaches query depth level)
    (hd : depth = 1 ∨ depth ≤ r.maxDepth) (hitems : ∀ v ∈ items, r.Asks level v)
    (h : r.parseItems (depth + 1) items = .error fault) : r.Blames query fault := by
  cases items with
  | nil => exact nomatch h
  | cons v items =>
    obtain ⟨hv, hitems⟩ := List.forall_mem_cons.mp hitems
    obtain h | h := parseItems_cons_eq_error h
    · exact blames_of_parseValue v hr hd hv h
    · exact blames_of_parseItems items hr hd hitems h
termination_by structural items

end

theorem blames_of_parse (h : r.parse query = .error fault) : r.Blames query fault := by
  have hroot : r.Reaches query 1 query := .root
  rw [parse] at h
  obtain ⟨hk, -⟩ | ⟨hk, -, ha⟩ | ⟨hk, -, ho⟩ | ⟨hk, ha, ho⟩ := LevelKind.of_cases query <;>
    simp only [hk] at h
  · cases h
  · exact blames_of_parseFields query hroot (.inl rfl) ha (List.Subset.refl query)
      (map_eq_error.mp h)
  · cases hu : r.unsupportedRootKey? query with
    | none =>
      rw [hu] at h
      exact blames_of_parseClauses query hroot (.inl rfl) ho (List.Subset.refl query)
        (map_eq_error.mp h)
    | some key =>
      rw [hu] at h
      obtain rfl := Except.error.inj h
      refine ⟨1, query, hroot, .unsupportedRoot rfl (List.mem_of_find?_eq_some hu) ?_⟩
      intro op hop
      have hkey := List.find?_some hu
      simpa [hop] using hkey
  · obtain rfl := Except.error.inj h
    exact ⟨1, query, hroot, .mixedLevel ha ho⟩

theorem blames_of_compile {e : StoreError} (h : r.compile query = .error e) :
    ∃ fault, e = fault.toError ∧ r.Blames query fault := by
  unfold compile parseQuery at h
  cases hp : r.parse query with
  | ok node =>
    rw [hp] at h
    cases h
  | error fault =>
    rw [hp] at h
    exact ⟨fault, (Except.error.inj h).symm, blames_of_parse hp⟩

theorem Reaches.pos (h : r.Reaches query depth level) : 1 ≤ depth := by
  cases h with
  | root => exact Nat.le_refl 1
  | inner => exact Nat.le_add_left 1 _

theorem Reaches.eq_query (h : r.Reaches query 1 level) : level = query := by
  cases h with
  | root => rfl
  | inner h => exact absurd h.pos (by decide)

theorem Asks.namesOnce {v : Value} (h : r.Asks level v) (hl : (Value.document level).NamesOnce) :
    v.NamesOnce := by
  obtain ⟨-, hparts⟩ := Value.namesOnce_document_iff.mp hl
  cases h with
  | field _ hm => exact hparts _ hm
  | quantified _ hm => exact hparts _ hm
  | alternative _ hm _ _ hv => exact (Value.everyPart_array_iff.mp (hparts _ hm)).2 v hv

theorem Reaches.namesOnce (h : r.Reaches query depth level)
    (hq : (Value.document query).NamesOnce) : (Value.document level).NamesOnce := by
  induction h with
  | root => exact hq
  | inner _ _ he ih => exact he.namesOnce ih

theorem Reaches.get?_eq (h : r.Reaches query depth level)
    (hq : (Value.document query).NamesOnce) {token : String} {v : Value}
    (hm : (token, v) ∈ level) : level.get? token = some v :=
  Document.get?_of_mem (Value.namesOnce_document_iff.mp (h.namesOnce hq)).1 hm

/-- An error that names an operator shows a level of the query that the parser comes to, with a
key of that level for which the error is true. An error about the depth is true of such a level. -/
theorem compile_error_names_offender (r : QueryRules) {query : Document}
    (hq : (Value.document query).NamesOnce) :
    (∀ token text, r.compile query = .error (.unknownOperator token text) →
      ∃ depth level, r.Reaches query depth level ∧ token ∈ level.keys ∧
        r.vocabulary.resolve? token = none ∧ text = level.text) ∧
    (∀ token text, r.compile query = .error (.unexpectedObjectValue token text) →
      ∃ depth level d op, r.Reaches query depth level ∧ level.get? token = some (.document d) ∧
        r.vocabulary.normalize? token (.document d) = some op ∧ op.arity = .scalar ∧
        text = level.text) ∧
    (∀ token text, r.compile query = .error (.expectedArrayValue token text) →
      ∃ depth level v op, r.Reaches query depth level ∧ level.get? token = some v ∧
        v.isArray = false ∧ r.vocabulary.resolve? token = some op ∧ op.isCombinator = true ∧
        text = level.text) ∧
    (∀ token text, r.compile query = .error (.unsupportedRootOperator token text) →
      token ∈ query.keys ∧
        (∀ op, r.vocabulary.resolve? token = some op → op.isCombinator = false) ∧
        text = query.text) ∧
    ∀ limit, r.compile query = .error (.queryTooDeep limit) →
      limit = r.maxDepth ∧ ∃ depth level, r.Reaches query depth level ∧ limit < depth := by
  refine ⟨fun token text h => ?_, fun token text h => ?_, fun token text h => ?_,
    fun token text h => ?_, fun limit h => ?_⟩
  all_goals obtain ⟨fault, he, depth, level, hr, hfault⟩ := blames_of_compile h
  · cases hfault with
    | unknownOperator hkey hop =>
      obtain ⟨rfl, rfl⟩ := StoreError.unknownOperator.inj he
      exact ⟨depth, level, hr, hkey, hop, rfl⟩
    | _ => exact nomatch he
  · cases hfault with
    | @unexpectedObject _ d op hm hop ha =>
      obtain ⟨rfl, rfl⟩ := StoreError.unexpectedObjectValue.inj he
      exact ⟨depth, level, d, op, hr, hr.get?_eq hq hm, hop, ha, rfl⟩
    | _ => exact nomatch he
  · cases hfault with
    | @expectedArray _ v op hm hv hop hc =>
      obtain ⟨rfl, rfl⟩ := StoreError.expectedArrayValue.inj he
      exact ⟨depth, level, v, op, hr, hr.get?_eq hq hm, hv, hop, hc, rfl⟩
    | _ => exact nomatch he
  · cases hfault with
    | unsupportedRoot hd hkey hop =>
      obtain ⟨rfl, rfl⟩ := StoreError.unsupportedRootOperator.inj he
      subst hd
      obtain rfl := hr.eq_query
      exact ⟨hkey, hop, rfl⟩
    | _ => exact nomatch he
  · cases hfault with
    | tooDeep hd =>
      obtain rfl := StoreError.queryTooDeep.inj he
      exact ⟨rfl, depth, level, hr, hd⟩
    | _ => exact nomatch he

/-- A mistake behind a quantifier, one behind a combinator, one at the root, and one level too
many. -/
theorem compile_error_names_offender_film :
    let r : QueryRules := ⟨.standard, 3, 10⟩
    let age : Document := [("$gt", .int32 30), ("$near", .int32 40)]
    let unknown : Document := [("cast", .document [("$any", .document [("age", .document age)])])]
    let year : Document := [("$gt", .document [("from", .int32 1979)])]
    let object : Document := [("$or", .array [.document [("year", .document year)]])]
    let root : Document := [("$and", .array []), ("$gt", .int32 1979)]
    let deep : Document := [("cast", .document [("home", .document [("town", .document [])])])]
    (Value.document unknown).NamesOnce ∧ (Value.document object).NamesOnce ∧
      (Value.document root).NamesOnce ∧ (Value.document deep).NamesOnce ∧
      QueryRules.compile ⟨.standard, 4, 10⟩ unknown = .error (.unknownOperator "$near" age.text) ∧
      (∃ depth level, QueryRules.Reaches ⟨.standard, 4, 10⟩ unknown depth level ∧
        "$near" ∈ level.keys ∧ age.text = level.text) ∧
      r.compile object = .error (.unexpectedObjectValue "$gt" year.text) ∧
      (∃ depth level d op, r.Reaches object depth level ∧ level.get? "$gt" = some (.document d) ∧
        r.vocabulary.normalize? "$gt" (.document d) = some op ∧ op.arity = .scalar) ∧
      r.compile root = .error (.unsupportedRootOperator "$gt" root.text) ∧ "$gt" ∈ root.keys ∧
      r.compile deep = .error (.queryTooDeep 3) ∧
      ∃ depth level, r.Reaches deep depth level ∧ 3 < depth := by
  intro r age unknown year object root deep
  have hunknown : (Value.document unknown).NamesOnce := by decide
  have hobject : (Value.document object).NamesOnce := by decide
  have hroot : (Value.document root).NamesOnce := by decide
  have hdeep : (Value.document deep).NamesOnce := by decide
  have hunknown' : QueryRules.compile ⟨.standard, 4, 10⟩ unknown =
      .error (.unknownOperator "$near" age.text) := by
    simp only [unknown, age]
    rfl
  have hobject' : r.compile object = .error (.unexpectedObjectValue "$gt" year.text) := by
    simp only [r, object, year]
    rfl
  have hroot' : r.compile root = .error (.unsupportedRootOperator "$gt" root.text) := rfl
  have hdeep' : r.compile deep = .error (.queryTooDeep 3) := rfl
  obtain ⟨depth, level, hr, hkey, -, htext⟩ :=
    (compile_error_names_offender _ hunknown).1 _ _ hunknown'
  obtain ⟨depth', level', d, op, hr', hget, hop, ha, -⟩ :=
    (compile_error_names_offender r hobject).2.1 _ _ hobject'
  obtain ⟨-, -, -, hkeys, -⟩ := compile_error_names_offender r hroot
  obtain ⟨-, -, -, -, hlimit⟩ := compile_error_names_offender r hdeep
  exact ⟨hunknown, hobject, hroot, hdeep, hunknown', ⟨depth, level, hr, hkey, htext⟩, hobject',
    ⟨depth', level', d, op, hr', hget, hop, ha⟩, hroot', (hkeys _ _ hroot').1, hdeep',
    (hlimit 3 hdeep').2⟩

end QueryRules

end RecordStore
