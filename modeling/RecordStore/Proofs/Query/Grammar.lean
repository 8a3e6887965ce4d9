import RecordStore.Proofs.Query.Parsed

namespace RecordStore

def StoreError.isAboutQuery : StoreError → Bool
  | invalidQueryShape _ | unsupportedRootOperator _ _ | unknownOperator _ _
  | unexpectedObjectValue _ _ | expectedArrayValue _ _ | queryTooDeep _ => true
  | _ => false

theorem QueryFault.isAboutQuery_toError (fault : QueryFault) :
    fault.toError.isAboutQuery = true := by
  cases fault <;> rfl

namespace QueryRules

mutual

/-- What may stand for an attribute, or as a sub-query, at a depth. -/
inductive Accepts (r : QueryRules) : Nat → Value → Prop
  | plain {depth : Nat} {v : Value} (h : v.IsPlain) : Accepts r depth v
  | set {depth : Nat} {items : List Value} (h : items.length ≤ r.maxInSet) :
      Accepts r depth (.array items)
  | attributes {depth : Nat} {level : Document} (hd : depth ≤ r.maxDepth)
      (hk : level.OnlyAttributes) (hne : ∀ e ∈ level, e.1 ≠ "")
      (hv : ∀ e ∈ level, Accepts r (depth + 1) e.2) : Accepts r depth (.document level)
  | operators {depth : Nat} {level : Document} (hd : depth ≤ r.maxDepth)
      (hk : level.OnlyOperators) (hr : ∀ e ∈ level, ∃ op, r.vocabulary.resolve? e.1 = some op)
      (hv : ∀ e ∈ level, ∀ op, r.vocabulary.resolve? e.1 = some op →
        AcceptsOperand r depth (op.soften e.2) e.2) : Accepts r depth (.document level)

inductive AcceptsOperand (r : QueryRules) : Nat → Operator → Value → Prop
  | scalar {depth : Nat} {op : Operator} {v : Value} (ha : op.arity = .scalar)
      (hv : ∀ d, v ≠ .document d) (hs : r.FitsSet op v) : AcceptsOperand r depth op v
  | nested {depth : Nat} {op : Operator} {v : Value} (ha : op.arity = .nested)
      (hv : Accepts r (depth + 1) v) : AcceptsOperand r depth op v
  | nestedList {depth : Nat} {op : Operator} {items : List Value} (ha : op.arity = .nestedList)
      (hv : ∀ v ∈ items, Accepts r (depth + 1) v) : AcceptsOperand r depth op (.array items)

end

/-- The queries of the grammar. Their own level has depth one, is never too deep, and of operators
holds combinators only. -/
inductive AcceptsQuery (r : QueryRules) : Document → Prop
  | attributes {query : Document} (hk : query.OnlyAttributes) (hne : ∀ e ∈ query, e.1 ≠ "")
      (hv : ∀ e ∈ query, r.Accepts 2 e.2) : AcceptsQuery r query
  | operators {query : Document} (hk : query.OnlyOperators)
      (hr : ∀ e ∈ query, ∃ op, r.vocabulary.resolve? e.1 = some op ∧
        (op = .and ∨ op = .or ∨ op = .nor))
      (hv : ∀ e ∈ query, ∀ op, r.vocabulary.resolve? e.1 = some op →
        r.AcceptsOperand 1 (op.soften e.2) e.2) : AcceptsQuery r query

variable {r : QueryRules}

theorem accepts_array {depth : Nat} {items : List Value} :
    r.Accepts depth (.array items) ↔ items.length ≤ r.maxInSet := by
  refine ⟨fun h => ?_, .set⟩
  cases h with
  | plain h => exact absurd rfl (h.2 items)
  | set h => exact h

def AcceptsField (r : QueryRules) (depth : Nat) (e : String × Value) : Prop :=
  e.1 ≠ "" ∧ r.Accepts (depth + 1) e.2

def AcceptsClause (r : QueryRules) (depth : Nat) (e : String × Value) : Prop :=
  ∃ op, r.vocabulary.normalize? e.1 e.2 = some op ∧ r.AcceptsOperand depth op e.2

theorem acceptsClause_iff {depth : Nat} {e : String × Value} :
    r.AcceptsClause depth e ↔
      (∃ op, r.vocabulary.resolve? e.1 = some op) ∧
        ∀ op, r.vocabulary.resolve? e.1 = some op → r.AcceptsOperand depth (op.soften e.2) e.2 := by
  unfold AcceptsClause Vocabulary.normalize?
  cases r.vocabulary.resolve? e.1 <;> simp

theorem accepts_document {depth : Nat} {d : Document} :
    r.Accepts depth (.document d) ↔
      depth ≤ r.maxDepth ∧
        ((d.OnlyAttributes ∧ ∀ e ∈ d, r.AcceptsField depth e) ∨
          (d.OnlyOperators ∧ ∀ e ∈ d, r.AcceptsClause depth e)) := by
  constructor
  · intro h
    cases h with
    | plain h => exact absurd rfl (h.1 d)
    | attributes hd hk hne hv => exact ⟨hd, .inl ⟨hk, fun e he => ⟨hne e he, hv e he⟩⟩⟩
    | operators hd hk hr hv =>
      exact ⟨hd, .inr ⟨hk, fun e he => acceptsClause_iff.mpr ⟨hr e he, hv e he⟩⟩⟩
  · rintro ⟨hd, ⟨hk, he⟩ | ⟨hk, he⟩⟩
    · exact .attributes hd hk (fun e hm => (he e hm).1) (fun e hm => (he e hm).2)
    · exact .operators hd hk (fun e hm => (acceptsClause_iff.mp (he e hm)).1)
        (fun e hm => (acceptsClause_iff.mp (he e hm)).2)

theorem acceptsOperand_scalar {depth : Nat} {op : Operator} {v : Value} (ha : op.arity = .scalar) :
    r.AcceptsOperand depth op v ↔ (∀ d, v ≠ .document d) ∧ r.FitsSet op v := by
  constructor
  · rintro (⟨-, hv, hs⟩ | ⟨hn, -⟩ | ⟨hn, -⟩)
    · exact ⟨hv, hs⟩
    all_goals simp [ha] at hn
  · rintro ⟨hv, hs⟩
    exact .scalar ha hv hs

theorem acceptsOperand_nested {depth : Nat} {op : Operator} {v : Value} (ha : op.arity = .nested) :
    r.AcceptsOperand depth op v ↔ r.Accepts (depth + 1) v := by
  constructor
  · rintro (⟨hn, -, -⟩ | ⟨-, hv⟩ | ⟨hn, -⟩)
    · simp [ha] at hn
    · exact hv
    · simp [ha] at hn
  · exact .nested ha

theorem acceptsOperand_nestedList {depth : Nat} {op : Operator} {v : Value}
    (ha : op.arity = .nestedList) :
    r.AcceptsOperand depth op v ↔
      ∃ items, v = .array items ∧ ∀ i ∈ items, r.Accepts (depth + 1) i := by
  constructor
  · rintro (⟨hn, -, -⟩ | ⟨hn, -⟩ | ⟨-, hv⟩)
    · simp [ha] at hn
    · simp [ha] at hn
    · exact ⟨_, rfl, hv⟩
  · rintro ⟨items, rfl, hv⟩
    exact .nestedList ha hv

theorem isCombinator_iff {op : Operator} :
    op.isCombinator = true ↔ op = .and ∨ op = .or ∨ op = .nor := by
  cases op <;> simp [Operator.isCombinator, Operator.arity]

theorem acceptsQuery_iff {query : Document} :
    r.AcceptsQuery query ↔
      (query.OnlyAttributes ∧ ∀ e ∈ query, r.AcceptsField 1 e) ∨
        (query.OnlyOperators ∧ r.OnlyCombinators query ∧ ∀ e ∈ query, r.AcceptsClause 1 e) := by
  constructor
  · rintro (⟨hk, hne, hv⟩ | ⟨hk, hr, hv⟩)
    · exact .inl ⟨hk, fun e he => ⟨hne e he, hv e he⟩⟩
    · refine .inr ⟨hk, fun e he => ?_, fun e he => ?_⟩
      · obtain ⟨op, hop, hc⟩ := hr e he
        exact ⟨op, hop, isCombinator_iff.mpr hc⟩
      · obtain ⟨op, hop, -⟩ := hr e he
        exact acceptsClause_iff.mpr ⟨⟨op, hop⟩, hv e he⟩
  · rintro (⟨hk, he⟩ | ⟨hk, hr, he⟩)
    · exact .attributes hk (fun e hm => (he e hm).1) (fun e hm => (he e hm).2)
    · refine .operators hk (fun e hm => ?_) (fun e hm => (acceptsClause_iff.mp (he e hm)).2)
      obtain ⟨op, hop, hc⟩ := hr e hm
      exact ⟨op, hop, isCombinator_iff.mp hc⟩

theorem exists_parseValue_of_isPlain {v : Value} (h : v.IsPlain) {depth : Nat} :
    (∃ node, r.parseValue depth v = .ok node) ↔ r.Accepts depth v :=
  ⟨fun _ => .plain h, fun _ => ⟨.value v, (parseValue_eq_ok_of_isPlain h).mpr rfl⟩⟩

mutual

theorem exists_parseValue (v : Value) (depth : Nat) :
    (∃ node, r.parseValue depth v = .ok node) ↔ r.Accepts depth v := by
  cases v with
  | document d =>
    have hf := exists_parseFields d depth d
    have hc := exists_parseClauses d depth d
    simp only [parseValue_document_eq_ok, accepts_document, ← hf, ← hc]
    constructor
    · rintro ⟨-, hd, ⟨hk, fs, hfs, -⟩ | ⟨-, hk, cs, hcs, -⟩⟩
      · exact ⟨hd, .inl ⟨hk, fs, hfs⟩⟩
      · exact ⟨hd, .inr ⟨hk, cs, hcs⟩⟩
    · rintro ⟨hd, ⟨hk, fs, hfs⟩ | ⟨hk, cs, hcs⟩⟩
      · exact ⟨_, hd, .inl ⟨hk, fs, hfs, rfl⟩⟩
      · by_cases hne : d = []
        · subst hne
          exact ⟨_, hd, .inl ⟨(fun e he => nomatch he), [], rfl, rfl⟩⟩
        · exact ⟨_, hd, .inr ⟨hne, hk, cs, hcs, rfl⟩⟩
  | array items => simp [parseValue_array_eq_ok, accepts_array]
  | _ => exact exists_parseValue_of_isPlain (by simp [Value.IsPlain])

theorem exists_parseFields (entries : List (String × Value)) (depth : Nat) (level : Document) :
    (∃ fs, r.parseFields depth level entries = .ok fs) ↔
      ∀ e ∈ entries, r.AcceptsField depth e := by
  cases entries with
  | nil => simp [parseFields]
  | cons e entries =>
    obtain ⟨name, v⟩ := e
    have hv := exists_parseValue v (depth + 1)
    have hes := exists_parseFields entries depth level
    simp only [parseFields_cons_eq_ok, List.forall_mem_cons, AcceptsField, ← hv]
    constructor
    · rintro ⟨-, hne, node, hnode, rest, hrest, -⟩
      exact ⟨⟨hne, node, hnode⟩, hes.mp ⟨rest, hrest⟩⟩
    · rintro ⟨⟨hne, node, hnode⟩, h⟩
      obtain ⟨rest, hrest⟩ := hes.mpr h
      exact ⟨_, hne, node, hnode, rest, hrest, rfl⟩

theorem exists_parseClauses (entries : List (String × Value)) (depth : Nat) (level : Document) :
    (∃ cs, r.parseClauses depth level entries = .ok cs) ↔
      ∀ e ∈ entries, r.AcceptsClause depth e := by
  cases entries with
  | nil => simp [parseClauses]
  | cons e entries =>
    obtain ⟨token, v⟩ := e
    have hes := exists_parseClauses entries depth level
    have hc (op : Operator) : (∃ c, r.ParsesClause depth op v c) ↔ r.AcceptsOperand depth op v := by
      cases ha : op.arity with
      | scalar => simp [parsesClause_of_scalar ha, acceptsOperand_scalar ha]
      | nested =>
        have hv := exists_parseValue v (depth + 1)
        rw [acceptsOperand_nested ha, ← hv]
        simp only [parsesClause_of_nested ha]
        exact ⟨fun ⟨_, node, h, _⟩ => ⟨node, h⟩, fun ⟨node, h⟩ => ⟨_, node, h, rfl⟩⟩
      | nestedList =>
        cases v with
        | array items =>
          have hi := exists_parseItems items (depth + 1)
          simp only [acceptsOperand_nestedList ha, parsesClause_of_nestedList ha,
            Value.array.injEq, exists_eq_left', ← hi]
          exact ⟨fun ⟨_, nodes, h, _⟩ => ⟨nodes, h⟩, fun ⟨nodes, h⟩ => ⟨_, nodes, h, rfl⟩⟩
        | _ => simp [acceptsOperand_nestedList ha, parsesClause_of_nestedList ha]
    simp only [parseClauses_cons_eq_ok, List.forall_mem_cons, AcceptsClause, ← hc]
    constructor
    · rintro ⟨-, op, hop, c, hc, rest, hrest, -⟩
      exact ⟨⟨op, hop, c, hc⟩, hes.mp ⟨rest, hrest⟩⟩
    · rintro ⟨⟨op, hop, c, hc⟩, h⟩
      obtain ⟨rest, hrest⟩ := hes.mpr h
      exact ⟨_, op, hop, c, hc, rest, hrest, rfl⟩

theorem exists_parseItems (items : List Value) (depth : Nat) :
    (∃ nodes, r.parseItems depth items = .ok nodes) ↔ ∀ v ∈ items, r.Accepts depth v := by
  cases items with
  | nil => simp [parseItems]
  | cons v items =>
    have hv := exists_parseValue v depth
    have hes := exists_parseItems items depth
    simp only [parseItems_cons_eq_ok, List.forall_mem_cons, ← hv]
    constructor
    · rintro ⟨-, node, hnode, rest, hrest, -⟩
      exact ⟨⟨node, hnode⟩, hes.mp ⟨rest, hrest⟩⟩
    · rintro ⟨⟨node, hnode⟩, h⟩
      obtain ⟨rest, hrest⟩ := hes.mpr h
      exact ⟨_, node, hnode, rest, hrest, rfl⟩

end

theorem exists_parse (query : Document) :
    (∃ node, r.parse query = .ok node) ↔ r.AcceptsQuery query := by
  have hf := exists_parseFields (r := r) query 1 query
  have hc := exists_parseClauses (r := r) query 1 query
  simp only [parse_eq_ok, acceptsQuery_iff, ← hf, ← hc]
  constructor
  · rintro ⟨-, ⟨hk, fs, hfs, -⟩ | ⟨-, hk, hr, cs, hcs, -⟩⟩
    · exact .inl ⟨hk, fs, hfs⟩
    · exact .inr ⟨hk, hr, cs, hcs⟩
  · rintro (⟨hk, fs, hfs⟩ | ⟨hk, hr, cs, hcs⟩)
    · exact ⟨_, .inl ⟨hk, fs, hfs, rfl⟩⟩
    · by_cases hne : query = []
      · subst hne
        exact ⟨_, .inl ⟨(fun e he => nomatch he), [], rfl, rfl⟩⟩
      · exact ⟨_, .inr ⟨hne, hk, hr, cs, hcs, rfl⟩⟩

theorem exists_compile (query : Document) :
    (∃ es, r.compile query = .ok es) ↔ r.AcceptsQuery query := by
  simp only [← exists_parse, compile_eq_ok]
  exact ⟨fun ⟨_, node, hnode, _⟩ => ⟨node, hnode⟩, fun ⟨node, hnode⟩ => ⟨_, node, hnode, rfl⟩⟩

theorem compile_error {query : Document} (h : ¬ ∃ node, r.parse query = .ok node) :
    ∃ fault : QueryFault, r.compile query = .error fault.toError := by
  unfold compile parseQuery
  cases hp : r.parse query with
  | ok node => exact absurd ⟨node, hp⟩ h
  | error fault => exact ⟨fault, rfl⟩

/-- A query is compiled if it is in the grammar, and refused with an error about queries if not. -/
theorem compile_iff_acceptsQuery (r : QueryRules) (query : Document) :
    (r.AcceptsQuery query ∧ ∃ es, r.compile query = .ok es) ∨
      (¬ r.AcceptsQuery query ∧ ∃ e, r.compile query = .error e ∧ e.isAboutQuery = true) := by
  by_cases h : r.AcceptsQuery query
  · obtain ⟨node, hnode⟩ := (exists_parse query).mpr h
    exact .inl ⟨h, _, compile_eq_ok.mpr ⟨node, hnode, rfl⟩⟩
  · obtain ⟨fault, hfault⟩ := compile_error fun hp => h ((exists_parse query).mp hp)
    exact .inr ⟨h, _, hfault, fault.isAboutQuery_toError⟩

end QueryRules

end RecordStore
