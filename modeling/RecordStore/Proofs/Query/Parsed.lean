import RecordStore.Proofs.Value.Shape
import RecordStore.Query.Compiler

namespace RecordStore

namespace Document

def OnlyAttributes (level : Document) : Prop := ∀ e ∈ level, looksLikeOperator e.1 = false

def OnlyOperators (level : Document) : Prop := ∀ e ∈ level, looksLikeOperator e.1 = true

theorem not_onlyOperators {level : Document} (hne : level ≠ []) (h : level.OnlyAttributes) :
    ¬ level.OnlyOperators := by
  obtain ⟨e, entries, rfl⟩ := List.exists_cons_of_ne_nil hne
  intro ho
  exact absurd (ho e (by simp)) (by simp [h e (by simp)])

end Document

namespace LevelKind

theorem of_cons (e : String × Value) (entries : List (String × Value)) :
    of (e :: entries) =
      if (e :: entries).all (fun f => looksLikeOperator f.1) then .operators
      else if (e :: entries).any (fun f => looksLikeOperator f.1) then .mixed
      else .attributes := rfl

theorem of_cases (level : Document) :
    (of level = .empty ∧ level = []) ∨
    (of level = .attributes ∧ level ≠ [] ∧ level.OnlyAttributes) ∨
    (of level = .operators ∧ level ≠ [] ∧ level.OnlyOperators) ∨
    (of level = .mixed ∧ ¬ level.OnlyAttributes ∧ ¬ level.OnlyOperators) := by
  cases level with
  | nil => exact .inl ⟨rfl, rfl⟩
  | cons e entries =>
    right
    have hne : e :: entries ≠ [] := by simp
    rw [of_cons]
    by_cases ho : Document.OnlyOperators (e :: entries)
    · have hall : (e :: entries).all (fun f => looksLikeOperator f.1) = true :=
        List.all_eq_true.mpr ho
      rw [if_pos hall]
      exact .inr (.inl ⟨rfl, hne, ho⟩)
    · have hall : ¬ (e :: entries).all (fun f => looksLikeOperator f.1) = true :=
        fun h => ho (List.all_eq_true.mp h)
      rw [if_neg hall]
      by_cases ha : Document.OnlyAttributes (e :: entries)
      · have hany : ¬ (e :: entries).any (fun f => looksLikeOperator f.1) = true := by
          intro h
          obtain ⟨f, hf, hop⟩ := List.any_eq_true.mp h
          exact absurd hop (by simp [ha f hf])
        rw [if_neg hany]
        exact .inl ⟨rfl, hne, ha⟩
      · have hany : (e :: entries).any (fun f => looksLikeOperator f.1) = true := by
          obtain ⟨f, hf⟩ := Classical.not_forall.mp ha
          obtain ⟨hf, hop⟩ := Classical.not_imp.mp hf
          exact List.any_eq_true.mpr ⟨f, hf, by simpa using hop⟩
        rw [if_pos hany]
        exact .inr (.inr ⟨rfl, ha, ho⟩)

end LevelKind

theorem Operator.soften_of_nestedList {op : Operator} (ha : op.arity = .nestedList) (v : Value) :
    op.soften v = op := by
  cases op <;> first | rfl | exact nomatch ha

namespace QueryRules

variable {r : QueryRules} {depth : Nat} {level : Document}

theorem parseValue_document_eq_ok {d : Document} {node : Node} :
    r.parseValue depth (.document d) = .ok node ↔
      depth ≤ r.maxDepth ∧
        ((d.OnlyAttributes ∧ ∃ fs, r.parseFields depth d d = .ok fs ∧ .fields fs = node) ∨
          (d ≠ [] ∧ d.OnlyOperators ∧
            ∃ cs, r.parseClauses depth d d = .ok cs ∧ .operators cs = node)) := by
  rw [parseValue]
  by_cases hd : r.maxDepth < depth
  · simp [hd, Nat.not_le.mpr hd]
  · rw [if_neg hd]
    have hle : depth ≤ r.maxDepth := Nat.le_of_not_lt hd
    obtain ⟨hk, rfl⟩ | ⟨hk, hne, ha⟩ | ⟨hk, hne, ho⟩ | ⟨hk, ha, ho⟩ := LevelKind.of_cases d <;>
      simp only [hk]
    · have ha : Document.OnlyAttributes [] := fun e he => nomatch he
      simp [hle, ha, parseFields]
    · simp [hle, ha, Document.not_onlyOperators hne ha, map_eq_ok]
    · have ha : ¬ d.OnlyAttributes := fun ha => Document.not_onlyOperators hne ha ho
      simp [hle, hne, ha, ho, map_eq_ok]
    · simp [ha, ho]

theorem parseValue_array_eq_ok {items : List Value} {node : Node} :
    r.parseValue depth (.array items) = .ok node ↔
      items.length ≤ r.maxInSet ∧ .value (.array items) = node := by
  rw [parseValue]
  by_cases h : r.maxInSet < items.length
  · simp [h, Nat.not_le.mpr h]
  · simp [h, Nat.le_of_not_lt h]

theorem parseValue_eq_ok_of_isPlain {v : Value} (h : v.IsPlain) {node : Node} :
    r.parseValue depth v = .ok node ↔ .value v = node := by
  cases v with
  | document d => exact absurd rfl (h.1 d)
  | array items => exact absurd rfl (h.2 items)
  | _ => simp [parseValue]

theorem parseFields_cons_eq_ok {name : String} {v : Value} {entries : List (String × Value)}
    {fs : List (String × Node)} :
    r.parseFields depth level ((name, v) :: entries) = .ok fs ↔
      name ≠ "" ∧ ∃ node, r.parseValue (depth + 1) v = .ok node ∧
        ∃ rest, r.parseFields depth level entries = .ok rest ∧ (name, node) :: rest = fs := by
  rw [parseFields]
  by_cases h : name = ""
  · simp [h, throw, throwThe, MonadExceptOf.throw, bind, Except.bind]
  · simp only [h, if_false, ne_eq, not_false_eq_true, true_and]
    simp only [bind_eq_ok, pure, Except.pure, Except.ok.injEq]

theorem parseItems_cons_eq_ok {v : Value} {items : List Value} {nodes : List Node} :
    r.parseItems depth (v :: items) = .ok nodes ↔
      ∃ node, r.parseValue depth v = .ok node ∧
        ∃ rest, r.parseItems depth items = .ok rest ∧ node :: rest = nodes := by
  rw [parseItems]
  simp only [bind_eq_ok, pure, Except.pure, Except.ok.injEq]

def FitsSet (r : QueryRules) (op : Operator) (v : Value) : Prop :=
  op = .isIn ∨ op = .notIn → ∀ items, v = .array items → items.length ≤ r.maxInSet

inductive ParsesClause (r : QueryRules) (depth : Nat) (op : Operator) : Value → Clause → Prop
  | compare {v : Value} (ha : op.arity = .scalar) (hv : ∀ d, v ≠ .document d)
      (hs : r.FitsSet op v) : ParsesClause r depth op v (.compare op v)
  | quantify {v : Value} {node : Node} (ha : op.arity = .nested)
      (h : r.parseValue (depth + 1) v = .ok node) : ParsesClause r depth op v (.quantify op node)
  | combine {items : List Value} {nodes : List Node} (ha : op.arity = .nestedList)
      (h : r.parseItems (depth + 1) items = .ok nodes) :
      ParsesClause r depth op (.array items) (.combine op nodes)

theorem parsesClause_of_scalar {op : Operator} (ha : op.arity = .scalar) {v : Value} {c : Clause} :
    r.ParsesClause depth op v c ↔
      ((∀ d, v ≠ .document d) ∧ r.FitsSet op v) ∧ .compare op v = c := by
  constructor
  · rintro (⟨-, hv, hs⟩ | ⟨hn, -⟩ | ⟨hn, -⟩)
    · exact ⟨⟨hv, hs⟩, rfl⟩
    all_goals simp [ha] at hn
  · rintro ⟨⟨hv, hs⟩, rfl⟩
    exact .compare ha hv hs

theorem parsesClause_of_nested {op : Operator} (ha : op.arity = .nested) {v : Value} {c : Clause} :
    r.ParsesClause depth op v c ↔
      ∃ node, r.parseValue (depth + 1) v = .ok node ∧ .quantify op node = c := by
  constructor
  · rintro (⟨hn, -, -⟩ | ⟨-, h⟩ | ⟨hn, -⟩)
    · simp [ha] at hn
    · exact ⟨_, h, rfl⟩
    · simp [ha] at hn
  · rintro ⟨node, h, rfl⟩
    exact .quantify ha h

theorem parsesClause_of_nestedList {op : Operator} (ha : op.arity = .nestedList) {v : Value}
    {c : Clause} :
    r.ParsesClause depth op v c ↔
      ∃ items, v = .array items ∧
        ∃ nodes, r.parseItems (depth + 1) items = .ok nodes ∧ .combine op nodes = c := by
  constructor
  · rintro (⟨hn, -, -⟩ | ⟨hn, -⟩ | ⟨-, h⟩)
    · simp [ha] at hn
    · simp [ha] at hn
    · exact ⟨_, rfl, _, h, rfl⟩
  · rintro ⟨items, rfl, nodes, h, rfl⟩
    exact .combine ha h

theorem checkScalar_eq_ok {token : String} {op : Operator} {v : Value} {c : Clause} :
    r.checkScalar level token op v = .ok c ↔
      ((∀ d, v ≠ .document d) ∧ r.FitsSet op v) ∧ .compare op v = c := by
  cases v with
  | document d => simp [checkScalar]
  | array items =>
    rw [checkScalar]
    by_cases h : (op = .isIn ∨ op = .notIn) ∧ r.maxInSet < items.length
    · have hs : ¬ r.FitsSet op (.array items) := fun hs =>
        absurd (hs h.1 items rfl) (Nat.not_le.mpr h.2)
      simp [h, hs]
    · have hs : r.FitsSet op (.array items) := by
        rintro ho _ ⟨⟩
        exact Nat.le_of_not_lt fun hl => h ⟨ho, hl⟩
      simp [h, hs]
  | _ => simp [checkScalar, FitsSet]

theorem parseClauses_cons_eq_ok {token : String} {v : Value} {entries : List (String × Value)}
    {cs : List Clause} :
    r.parseClauses depth level ((token, v) :: entries) = .ok cs ↔
      ∃ op, r.vocabulary.normalize? token v = some op ∧
        ∃ c, r.ParsesClause depth op v c ∧
          ∃ rest, r.parseClauses depth level entries = .ok rest ∧ c :: rest = cs := by
  rw [parseClauses]
  cases hop : r.vocabulary.normalize? token v with
  | none => simp [throw, throwThe, MonadExceptOf.throw]
  | some op =>
    simp only [Option.some.injEq, exists_eq_left']
    cases ha : op.arity with
    | scalar =>
      simp only [bind_eq_ok, checkScalar_eq_ok, parsesClause_of_scalar ha, pure, Except.pure,
        Except.ok.injEq]
    | nested =>
      simp only [bind_eq_ok, map_eq_ok, parsesClause_of_nested ha, pure, Except.pure,
        Except.ok.injEq]
    | nestedList =>
      cases v with
      | array items =>
        simp only [bind_eq_ok, map_eq_ok, parsesClause_of_nestedList ha, pure, Except.pure,
          Except.ok.injEq, Value.array.injEq, exists_eq_left']
      | _ => simp [parsesClause_of_nestedList ha, bind, Except.bind]

def OnlyCombinators (r : QueryRules) (query : Document) : Prop :=
  ∀ e ∈ query, ∃ op, r.vocabulary.resolve? e.1 = some op ∧ op.isCombinator = true

theorem unsupportedRootKey?_eq_none {query : Document} :
    r.unsupportedRootKey? query = none ↔ r.OnlyCombinators query := by
  simp only [unsupportedRootKey?, Document.keys, List.find?_eq_none, List.forall_mem_map,
    OnlyCombinators]
  refine forall₂_congr fun e _ => ?_
  cases r.vocabulary.resolve? e.1 <;> simp

theorem parse_eq_ok {query : Document} {node : Node} :
    r.parse query = .ok node ↔
      (query.OnlyAttributes ∧ ∃ fs, r.parseFields 1 query query = .ok fs ∧ .fields fs = node) ∨
        (query ≠ [] ∧ query.OnlyOperators ∧ r.OnlyCombinators query ∧
          ∃ cs, r.parseClauses 1 query query = .ok cs ∧ .operators cs = node) := by
  rw [parse]
  obtain ⟨hk, rfl⟩ | ⟨hk, hne, ha⟩ | ⟨hk, hne, ho⟩ | ⟨hk, ha, ho⟩ := LevelKind.of_cases query <;>
    simp only [hk]
  · have ha : Document.OnlyAttributes [] := fun e he => nomatch he
    simp [ha, parseFields, Node.all]
  · simp [ha, Document.not_onlyOperators hne ha, map_eq_ok]
  · have ha : ¬ query.OnlyAttributes := fun ha => Document.not_onlyOperators hne ha ho
    cases hu : r.unsupportedRootKey? query with
    | none => simp [hne, ha, ho, unsupportedRootKey?_eq_none.mp hu, map_eq_ok]
    | some key =>
      have hc : ¬ r.OnlyCombinators query := fun hc => by
        simp [unsupportedRootKey?_eq_none.mpr hc] at hu
      simp [ha, hc]
  · simp [ha, ho]

theorem compile_eq_ok {query : Document} {es : List Expression} :
    r.compile query = .ok es ↔ ∃ node, r.parse query = .ok node ∧ node.lower "" = es := by
  unfold compile parseQuery
  cases r.parse query with
  | error fault =>
    constructor
    · exact fun h => nomatch h
    · exact fun ⟨_, h, _⟩ => nomatch h
  | ok node =>
    have h : ((Except.ok node).mapError QueryFault.toError).map (Node.lower "") =
        Except.ok (node.lower "") := rfl
    rw [h, Except.ok.injEq]
    simp only [Except.ok.injEq, exists_eq_left']

end QueryRules

end RecordStore
