import RecordStore.Proofs.Query.Parsed
import RecordStore.Proofs.Value.Names
import RecordStore.Query.Match

namespace RecordStore

namespace Scope

def attributes? : Scope → Option Document
  | record d | value (some (.document d)) => some d
  | value _ => none

def items? : Scope → Option (List Value)
  | value (some (.array items)) => some items
  | _ => none

def step (s : Scope) (name : String) : Scope :=
  .value (s.attributes?.bind fun d => d.get? name)

def follow (s : Scope) (name : String) : Scope := (Path.ofString name).names.foldl step s

end Scope

namespace Operator

/-- What an operator on a sub-query says in a scope. -/
def quantifies (op : Operator) (s : Scope) (sub : Scope → Bool) : Bool :=
  match op with
  | not => !sub s
  | anyItem => s.items?.any fun items => items.any fun i => sub (.value (some i))
  | everyItem => s.items?.any fun items => items.all fun i => sub (.value (some i))
  | _ => false

def combines (op : Operator) (answers : List Bool) : Bool :=
  match op with
  | and => answers.all id
  | or => answers.any id
  | nor => !answers.any id
  | _ => false

end Operator

mutual

/-- Whether a value of a query holds in a scope: a document is a level of its own, an array a set
of values to be among, and anything else a value to be equal to. -/
def Value.holdsIn (w : Vocabulary) (s : Scope) : Value → Bool
  | .document level => levelHoldsIn w s level
  | .array items => Operator.isIn.compares s.value? (.array items)
  | v => Operator.equal.compares s.value? v

/-- Whether all of a level holds: what it says of attributes where they lead, and its operators
where it stands. -/
def levelHoldsIn (w : Vocabulary) (s : Scope) : List (String × Value) → Bool
  | [] => true
  | (key, v) :: entries =>
    (if looksLikeOperator key then
      match w.normalize? key v with
      | none => false
      | some op =>
        match op.arity with
        | .scalar => op.compares s.value? v
        | .nested => op.quantifies s fun t => v.holdsIn w t
        | .nestedList =>
          match v with
          | .array items => op.combines (itemsHoldIn w s items)
          | _ => false
    else v.holdsIn w (s.follow key)) && levelHoldsIn w s entries

def itemsHoldIn (w : Vocabulary) (s : Scope) : List Value → List Bool
  | [] => []
  | v :: items => v.holdsIn w s :: itemsHoldIn w s items

end

def Document.meets (d : Document) (w : Vocabulary) (query : Document) : Bool :=
  levelHoldsIn w (.record d) query

namespace Scope

theorem foldl_step (s : Scope) (first : String) (rest : List String) :
    (first :: rest).foldl step s =
      .value (s.attributes?.bind fun d => Document.getAt d first rest) := by
  induction rest generalizing s first with
  | nil => rfl
  | cons next rest ih =>
    rw [List.foldl_cons, ih]
    cases hs : s.attributes? with
    | none =>
      simp only [step, hs, Option.bind_none]
      rfl
    | some d =>
      simp only [step, hs, Option.bind_some, Document.getAt]
      obtain _ | v := Document.get? d first
      · rfl
      · cases v <;> rfl

theorem follow_join (s : Scope) {parent : String} (h : parent ≠ "") (name : String) :
    s.follow (Path.join parent name) = (s.follow parent).follow name := by
  simp only [follow, Path.names_join h, List.foldl_append]

theorem descend_of_ne (s : Scope) {path : String} (h : path ≠ "") :
    s.descend path = s.follow path := by
  rw [follow, Path.names, foldl_step]
  unfold descend
  rw [if_neg h]
  obtain d | (_ | v) := s
  · rfl
  · rfl
  · cases v <;> rfl

@[simp] theorem descend_empty (s : Scope) : s.descend "" = s := rfl

/-- A path that was joined leads where its two parts lead one after the other. -/
theorem descend_join (s : Scope) (path : String) {name : String} (h : name ≠ "") :
    s.descend (Path.join path name) = (s.descend path).follow name := by
  by_cases hp : path = ""
  · subst hp
    rw [Path.join_empty, descend_empty, descend_of_ne s h]
  · rw [descend_of_ne s (Path.join_ne_empty h), follow_join s hp, descend_of_ne s hp]

end Scope

theorem allHold_append (s : Scope) (es fs : List Expression) :
    allHold s (es ++ fs) = (allHold s es && allHold s fs) := by
  induction es with
  | nil => rfl
  | cons e es ih => simp [allHold, ih, Bool.and_assoc]

theorem everyBranchHolds_eq (s : Scope) (branches : List (List Expression)) :
    everyBranchHolds s branches = (branches.map fun es => allHold s es).all id := by
  induction branches with
  | nil => rfl
  | cons es branches ih => simp [everyBranchHolds, ih]

theorem someBranchHolds_eq (s : Scope) (branches : List (List Expression)) :
    someBranchHolds s branches = (branches.map fun es => allHold s es).any id := by
  induction branches with
  | nil => rfl
  | cons es branches ih => simp [someBranchHolds, ih]

namespace Expression

theorem holds_quantify (s : Scope) (path : String) (op : Operator) (body : List Expression) :
    (quantify path op body).holds s =
      op.quantifies (s.descend path) fun t => allHold t body := by
  unfold holds
  generalize s.descend path = here
  cases op with
  | not => rfl
  | anyItem | everyItem =>
    obtain d | (_ | v) := here
    · rfl
    · rfl
    · cases v <;> rfl
  | _ => rfl

theorem holds_combine (s : Scope) (path : String) (op : Operator)
    (branches : List (List Expression)) :
    (combine path op branches).holds s =
      op.combines (branches.map fun es => allHold (s.descend path) es) := by
  unfold holds
  cases op <;> simp only [Operator.combines, everyBranchHolds_eq, someBranchHolds_eq]

end Expression

section Level

variable (w : Vocabulary) (s : Scope) {key : String} {v : Value}
  (entries : List (String × Value))

theorem levelHoldsIn_attribute (hk : looksLikeOperator key = false) :
    levelHoldsIn w s ((key, v) :: entries) =
      (v.holdsIn w (s.follow key) && levelHoldsIn w s entries) := by
  rw [levelHoldsIn, if_neg (by simp [hk])]

variable (hk : looksLikeOperator key = true) {op : Operator} (hop : w.normalize? key v = some op)

include hk hop

theorem levelHoldsIn_scalar (ha : op.arity = .scalar) :
    levelHoldsIn w s ((key, v) :: entries) =
      (op.compares s.value? v && levelHoldsIn w s entries) := by
  rw [levelHoldsIn, if_pos hk, hop]
  simp only [ha]

theorem levelHoldsIn_nested (ha : op.arity = .nested) :
    levelHoldsIn w s ((key, v) :: entries) =
      ((op.quantifies s fun t => v.holdsIn w t) && levelHoldsIn w s entries) := by
  rw [levelHoldsIn, if_pos hk, hop]
  simp only [ha]

theorem levelHoldsIn_nestedList (ha : op.arity = .nestedList) {items : List Value}
    (hv : v = .array items) :
    levelHoldsIn w s ((key, v) :: entries) =
      (op.combines (itemsHoldIn w s items) && levelHoldsIn w s entries) := by
  rw [levelHoldsIn, if_pos hk, hop]
  simp only [ha, hv]

end Level

namespace QueryRules

variable {r : QueryRules}

mutual

/-- The conditions made from a value hold where its own reading does. -/
theorem allHold_lower (v : Value) {depth : Nat} {node : Node}
    (h : r.parseValue depth v = .ok node) (path : String) (s : Scope) :
    allHold s (node.lower path) = v.holdsIn r.vocabulary (s.descend path) := by
  cases v with
  | document level =>
    obtain ⟨-, ⟨hk, fs, hfs, rfl⟩ | ⟨-, hk, cs, hcs, rfl⟩⟩ := parseValue_document_eq_ok.mp h
    · simpa only [Node.lower, Value.holdsIn] using allHold_lowerFields level hk hfs path s
    · simpa only [Node.lower, Value.holdsIn] using allHold_lowerClauses level hk hcs path s
  | array items =>
    obtain ⟨-, rfl⟩ := parseValue_array_eq_ok.mp h
    simp [Node.lower, allHold, Expression.holds, Value.holdsIn, Operator.implicit, Value.isArray]
  | _ =>
    obtain rfl := (parseValue_eq_ok_of_isPlain (by simp [Value.IsPlain])).mp h
    simp [Node.lower, allHold, Expression.holds, Value.holdsIn, Operator.implicit, Value.isArray]

theorem allHold_lowerFields (entries : List (String × Value)) {depth : Nat} {level : Document}
    {fs : List (String × Node)} (hk : Document.OnlyAttributes entries)
    (h : r.parseFields depth level entries = .ok fs) (path : String) (s : Scope) :
    allHold s (lowerFields path fs) = levelHoldsIn r.vocabulary (s.descend path) entries := by
  cases entries with
  | nil =>
    obtain rfl : [] = fs := by simpa [parseFields] using h
    simp [lowerFields, allHold, levelHoldsIn]
  | cons e entries =>
    obtain ⟨name, v⟩ := e
    obtain ⟨hne, node, hnode, rest, hrest, rfl⟩ := parseFields_cons_eq_ok.mp h
    have hname : looksLikeOperator name = false := hk (name, v) (by simp)
    have hv := allHold_lower v hnode (Path.join path name) s
    have hes := allHold_lowerFields entries (fun e he => hk e (by simp [he])) hrest path s
    rw [lowerFields, allHold_append, hv, hes, Scope.descend_join s path hne,
      levelHoldsIn_attribute _ _ _ hname]

theorem allHold_lowerClauses (entries : List (String × Value)) {depth : Nat} {level : Document}
    {cs : List Clause} (hk : Document.OnlyOperators entries)
    (h : r.parseClauses depth level entries = .ok cs) (path : String) (s : Scope) :
    allHold s (lowerClauses path cs) = levelHoldsIn r.vocabulary (s.descend path) entries := by
  cases entries with
  | nil =>
    obtain rfl : [] = cs := by simpa [parseClauses] using h
    simp [lowerClauses, allHold, levelHoldsIn]
  | cons e entries =>
    obtain ⟨token, v⟩ := e
    obtain ⟨op, hop, c, hc, rest, hrest, rfl⟩ := parseClauses_cons_eq_ok.mp h
    have htoken : looksLikeOperator token = true := hk (token, v) (by simp)
    have hes := allHold_lowerClauses entries (fun e he => hk e (by simp [he])) hrest path s
    rw [lowerClauses, allHold, hes]
    cases ha : op.arity with
    | scalar =>
      obtain ⟨-, rfl⟩ := (parsesClause_of_scalar ha).mp hc
      rw [levelHoldsIn_scalar _ _ _ htoken hop ha, Clause.lower, Expression.holds]
    | nested =>
      obtain ⟨node, hnode, rfl⟩ := (parsesClause_of_nested ha).mp hc
      have hv : ∀ t, allHold t (node.lower "") = v.holdsIn r.vocabulary t := fun t =>
        allHold_lower v hnode "" t
      rw [levelHoldsIn_nested _ _ _ htoken hop ha, Clause.lower, Expression.holds_quantify]
      simp only [hv]
    | nestedList =>
      cases v with
      | array items =>
        obtain ⟨_, hv, nodes, hnodes, rfl⟩ := (parsesClause_of_nestedList ha).mp hc
        obtain rfl := Value.array.inj hv
        rw [levelHoldsIn_nestedList _ _ _ htoken hop ha rfl, Clause.lower,
          Expression.holds_combine, allHold_lowerBranches items hnodes]
      | _ => simp [parsesClause_of_nestedList ha] at hc

theorem allHold_lowerBranches (items : List Value) {depth : Nat} {nodes : List Node}
    (h : r.parseItems depth items = .ok nodes) (s : Scope) :
    (lowerBranches nodes).map (fun es => allHold s es) = itemsHoldIn r.vocabulary s items := by
  cases items with
  | nil =>
    obtain rfl : [] = nodes := by simpa [parseItems] using h
    simp [lowerBranches, itemsHoldIn]
  | cons v items =>
    obtain ⟨node, hnode, rest, hrest, rfl⟩ := parseItems_cons_eq_ok.mp h
    have hv := allHold_lower v hnode "" s
    have hes := allHold_lowerBranches items hrest s
    rw [lowerBranches, List.map_cons, hv, hes, itemsHoldIn, Scope.descend_empty]

end

theorem allHold_compile {query : Document} {es : List Expression} (h : r.compile query = .ok es)
    (s : Scope) : allHold s es = levelHoldsIn r.vocabulary s query := by
  obtain ⟨node, hnode, rfl⟩ := compile_eq_ok.mp h
  obtain ⟨hk, fs, hfs, rfl⟩ | ⟨-, hk, -, cs, hcs, rfl⟩ := parse_eq_ok.mp hnode
  · have hfields := allHold_lowerFields query hk hfs "" s
    simpa only [Node.lower, Scope.descend_empty] using hfields
  · have hclauses := allHold_lowerClauses query hk hcs "" s
    simpa only [Node.lower, Scope.descend_empty] using hclauses

/-- Compiling and evaluating a query gives, on every record, what the query says of it. -/
theorem satisfies_compile (r : QueryRules) (query d : Document) {es : List Expression}
    (h : r.compile query = .ok es) : d.satisfies es = d.meets r.vocabulary query :=
  allHold_compile h (.record d)

theorem satisfies_compile_nested :
    let r : QueryRules := ⟨.standard, 4, 2⟩
    let query : Document := [("$nor", .array [
      .document [("cast", .document [("$every", .document [("by.id", .string "Ann")])])],
      .document [("year", .document [("$not", .array [.int32 1979, .int32 1986])])]])]
    let d : Document := [("cast", .array [
      .document [("by", .document [("id", .string "Ann")])], .string "unknown"]),
      ("year", .int64 1986)]
    let es : List Expression := [.combine "" .nor [
      [.quantify "cast" .everyItem [.compare "by.id" .equal (.string "Ann")]],
      [.compare "year" .notIn (.array [.int32 1979, .int32 1986])]]]
    r.compile query = .ok es ∧ d.satisfies es = d.meets r.vocabulary query ∧
      d.satisfies es = true := by
  intro r query d es
  have h : r.compile query = .ok es := rfl
  have hd : d.satisfies es = true := rfl
  exact ⟨h, satisfies_compile r query d h, hd⟩

end QueryRules

end RecordStore
