import RecordStore.Proofs.Query.Reading

namespace RecordStore

/-- The conditions of a compiled query, those inside others included. -/
inductive Within : List Expression → Expression → Prop
  | self {es : List Expression} {e : Expression} (h : e ∈ es) : Within es e
  | body {es body : List Expression} {e : Expression} {path : String} {op : Operator}
      (h : .quantify path op body ∈ es) (he : Within body e) : Within es e
  | branch {es branch : List Expression} {branches : List (List Expression)} {e : Expression}
      {path : String} {op : Operator} (h : .combine path op branches ∈ es)
      (hb : branch ∈ branches) (he : Within branch e) : Within es e

theorem Within.mono {es fs : List Expression} {e : Expression} (h : Within es e)
    (hsub : es ⊆ fs) : Within fs e := by
  cases h with
  | self h => exact .self (hsub h)
  | body h he => exact .body (hsub h) he
  | branch h hb he => exact .branch (hsub h) hb he

theorem not_within_nil {e : Expression} : ¬ Within [] e := by
  rintro (⟨⟨⟩⟩ | ⟨⟨⟩, -⟩ | ⟨⟨⟩, -, -⟩)

theorem within_append {es fs : List Expression} {e : Expression} :
    Within (es ++ fs) e ↔ Within es e ∨ Within fs e := by
  constructor
  · intro h
    cases h with
    | self h => exact (List.mem_append.mp h).imp .self .self
    | body h he => exact (List.mem_append.mp h).imp (.body · he) (.body · he)
    | branch h hb he => exact (List.mem_append.mp h).imp (.branch · hb he) (.branch · hb he)
  · rintro (h | h)
    · exact h.mono (List.subset_append_left es fs)
    · exact h.mono (List.subset_append_right es fs)

section Single

variable {path : String} {op : Operator} {e : Expression}

theorem within_compare {v : Value} :
    Within [.compare path op v] e ↔ e = .compare path op v := by
  refine ⟨fun h => ?_, fun h => .self (List.mem_singleton.mpr h)⟩
  cases h with
  | self h => exact List.mem_singleton.mp h
  | body h he => exact nomatch List.mem_singleton.mp h
  | branch h hb he => exact nomatch List.mem_singleton.mp h

theorem within_quantify {body : List Expression} :
    Within [.quantify path op body] e ↔ e = .quantify path op body ∨ Within body e := by
  constructor
  · intro h
    cases h with
    | self h => exact .inl (List.mem_singleton.mp h)
    | body h he =>
      cases List.mem_singleton.mp h
      exact .inr he
    | branch h hb he => exact nomatch List.mem_singleton.mp h
  · rintro (h | h)
    · exact .self (List.mem_singleton.mpr h)
    · exact .body (List.mem_singleton.mpr rfl) h

theorem within_combine {branches : List (List Expression)} :
    Within [.combine path op branches] e ↔
      e = .combine path op branches ∨ ∃ branch ∈ branches, Within branch e := by
  constructor
  · intro h
    cases h with
    | self h => exact .inl (List.mem_singleton.mp h)
    | body h he => exact nomatch List.mem_singleton.mp h
    | branch h hb he =>
      cases List.mem_singleton.mp h
      exact .inr ⟨_, hb, he⟩
  · rintro (h | ⟨branch, hb, he⟩)
    · exact .self (List.mem_singleton.mpr h)
    · exact .branch (List.mem_singleton.mpr rfl) hb he

end Single

def EveryWithin (P : Expression → Prop) (es : List Expression) : Prop := ∀ e, Within es e → P e

section EveryWithin

variable {P : Expression → Prop} {path : String} {op : Operator}

theorem everyWithin_nil : EveryWithin P [] := fun _ h => absurd h not_within_nil

theorem everyWithin_append {es fs : List Expression} :
    EveryWithin P (es ++ fs) ↔ EveryWithin P es ∧ EveryWithin P fs := by
  simp only [EveryWithin, within_append, or_imp, forall_and]

theorem everyWithin_cons {es : List Expression} {e : Expression} :
    EveryWithin P (e :: es) ↔ EveryWithin P [e] ∧ EveryWithin P es := @everyWithin_append P [e] es

theorem everyWithin_compare {v : Value} :
    EveryWithin P [.compare path op v] ↔ P (.compare path op v) := by
  simp only [EveryWithin, within_compare, forall_eq]

theorem everyWithin_quantify {body : List Expression} :
    EveryWithin P [.quantify path op body] ↔ P (.quantify path op body) ∧ EveryWithin P body := by
  simp only [EveryWithin, within_quantify, or_imp, forall_and, forall_eq]

theorem everyWithin_combine {branches : List (List Expression)} :
    EveryWithin P [.combine path op branches] ↔
      P (.combine path op branches) ∧ ∀ branch ∈ branches, EveryWithin P branch := by
  simp only [EveryWithin, within_combine, or_imp, forall_and, forall_eq]
  exact and_congr_right' ⟨fun h branch hb e he => h e ⟨branch, hb, he⟩,
    fun h e ⟨branch, hb, he⟩ => h branch hb e he⟩

end EveryWithin

/-- The operator of a condition fits what the condition carries. -/
inductive Expression.Fits (maxInSet : Nat) : Expression → Prop
  | compare {path : String} {op : Operator} {v : Value} (ha : op.arity = .scalar)
      (hv : ∀ d, v ≠ .document d)
      (hs : op = .isIn ∨ op = .notIn → ∃ items, v = .array items ∧ items.length ≤ maxInSet) :
      Fits maxInSet (.compare path op v)
  | quantify {path : String} {op : Operator} {body : List Expression} (ha : op.arity = .nested) :
      Fits maxInSet (.quantify path op body)
  | combine {path : String} {op : Operator} {branches : List (List Expression)}
      (ha : op.arity = .nestedList) : Fits maxInSet (.combine path op branches)

def AllFit (maxInSet : Nat) (es : List Expression) : Prop := ∀ e, Within es e → e.Fits maxInSet

section AllFit

variable {n : Nat} {path : String} {op : Operator}

theorem allFit_nil : AllFit n [] := everyWithin_nil

theorem allFit_append {es fs : List Expression} :
    AllFit n (es ++ fs) ↔ AllFit n es ∧ AllFit n fs := everyWithin_append

theorem allFit_cons {es : List Expression} {e : Expression} :
    AllFit n (e :: es) ↔ AllFit n [e] ∧ AllFit n es := everyWithin_cons

theorem allFit_compare {v : Value} :
    AllFit n [.compare path op v] ↔ (Expression.compare path op v).Fits n := everyWithin_compare

theorem allFit_quantify {body : List Expression} :
    AllFit n [.quantify path op body] ↔ op.arity = .nested ∧ AllFit n body := by
  refine everyWithin_quantify.trans (and_congr_left' ⟨fun h => ?_, .quantify⟩)
  cases h with
  | quantify ha => exact ha

theorem allFit_combine {branches : List (List Expression)} :
    AllFit n [.combine path op branches] ↔
      op.arity = .nestedList ∧ ∀ branch ∈ branches, AllFit n branch := by
  refine everyWithin_combine.trans (and_congr_left' ⟨fun h => ?_, .combine⟩)
  cases h with
  | combine ha => exact ha

end AllFit

theorem Operator.exists_array_of_soften {op : Operator} {v : Value}
    (h : op.soften v = .isIn ∨ op.soften v = .notIn) : ∃ items, v = .array items := by
  cases v with
  | array items => exact ⟨items, rfl⟩
  -- in front of anything else membership is softened to equality
  | _ => cases op <;> simp [soften] at h

namespace QueryRules

variable {r : QueryRules}

mutual

theorem allFit_lower (v : Value) {depth : Nat} {node : Node}
    (h : r.parseValue depth v = .ok node) (path : String) :
    AllFit r.maxInSet (node.lower path) := by
  cases v with
  | document level =>
    obtain ⟨-, ⟨-, fs, hfs, rfl⟩ | ⟨-, -, cs, hcs, rfl⟩⟩ := parseValue_document_eq_ok.mp h
    · exact allFit_lowerFields level hfs path
    · exact allFit_lowerClauses level hcs path
  | array items =>
    obtain ⟨hlength, rfl⟩ := parseValue_array_eq_ok.mp h
    exact allFit_compare.mpr (.compare rfl nofun fun _ => ⟨items, rfl, hlength⟩)
  | _ =>
    obtain rfl := (parseValue_eq_ok_of_isPlain (by simp [Value.IsPlain])).mp h
    exact allFit_compare.mpr (.compare rfl nofun (by simp [Operator.implicit, Value.isArray]))

theorem allFit_lowerFields (entries : List (String × Value)) {depth : Nat} {level : Document}
    {fs : List (String × Node)} (h : r.parseFields depth level entries = .ok fs) (path : String) :
    AllFit r.maxInSet (lowerFields path fs) := by
  cases entries with
  | nil =>
    obtain rfl : [] = fs := by simpa [parseFields] using h
    exact allFit_nil
  | cons e entries =>
    obtain ⟨name, v⟩ := e
    obtain ⟨-, node, hnode, rest, hrest, rfl⟩ := parseFields_cons_eq_ok.mp h
    exact allFit_append.mpr ⟨allFit_lower v hnode _, allFit_lowerFields entries hrest path⟩

theorem allFit_lowerClauses (entries : List (String × Value)) {depth : Nat} {level : Document}
    {cs : List Clause} (h : r.parseClauses depth level entries = .ok cs) (path : String) :
    AllFit r.maxInSet (lowerClauses path cs) := by
  cases entries with
  | nil =>
    obtain rfl : [] = cs := by simpa [parseClauses] using h
    exact allFit_nil
  | cons e entries =>
    obtain ⟨token, v⟩ := e
    obtain ⟨op, hop, c, hc, rest, hrest, rfl⟩ := parseClauses_cons_eq_ok.mp h
    refine allFit_cons.mpr ⟨?_, allFit_lowerClauses entries hrest path⟩
    cases ha : op.arity with
    | scalar =>
      obtain ⟨⟨hv, hs⟩, rfl⟩ := (parsesClause_of_scalar ha).mp hc
      refine allFit_compare.mpr (.compare ha hv fun hset => ?_)
      obtain ⟨written, -, rfl⟩ := Option.map_eq_some_iff.mp hop
      obtain ⟨items, rfl⟩ := Operator.exists_array_of_soften hset
      exact ⟨items, rfl, hs hset items rfl⟩
    | nested =>
      obtain ⟨node, hnode, rfl⟩ := (parsesClause_of_nested ha).mp hc
      exact allFit_quantify.mpr ⟨ha, allFit_lower v hnode ""⟩
    | nestedList =>
      cases v with
      | array items =>
        obtain ⟨_, hv, nodes, hnodes, rfl⟩ := (parsesClause_of_nestedList ha).mp hc
        obtain rfl := Value.array.inj hv
        exact allFit_combine.mpr ⟨ha, allFit_lowerBranches items hnodes⟩
      | _ => simp [parsesClause_of_nestedList ha] at hc

theorem allFit_lowerBranches (items : List Value) {depth : Nat} {nodes : List Node}
    (h : r.parseItems depth items = .ok nodes) :
    ∀ branch ∈ lowerBranches nodes, AllFit r.maxInSet branch := by
  cases items with
  | nil =>
    obtain rfl : [] = nodes := by simpa [parseItems] using h
    exact List.forall_mem_nil _
  | cons v items =>
    obtain ⟨node, hnode, rest, hrest, rfl⟩ := parseItems_cons_eq_ok.mp h
    exact List.forall_mem_cons.mpr ⟨allFit_lower v hnode "", allFit_lowerBranches items hrest⟩

end

theorem allFit_compile {query : Document} {es : List Expression} (h : r.compile query = .ok es) :
    AllFit r.maxInSet es := by
  obtain ⟨node, hnode, rfl⟩ := compile_eq_ok.mp h
  obtain ⟨-, fs, hfs, rfl⟩ | ⟨-, -, -, cs, hcs, rfl⟩ := parse_eq_ok.mp hnode
  · exact allFit_lowerFields query hfs ""
  · exact allFit_lowerClauses query hcs ""

end QueryRules

theorem path_of_mem_lowerClauses {path : String} {cs : List Clause} {e : Expression}
    (h : e ∈ lowerClauses path cs) : e.path = path := by
  induction cs with
  | nil => exact nomatch h
  | cons c cs ih =>
    obtain rfl | h := List.mem_cons.mp h
    · cases c <;> rfl
    · exact ih h

mutual

/-- The number of levels of a query below each other, bare values not counted. -/
def Node.levels : Node → Nat
  | .value _ => 0
  | .fields entries => fieldLevels entries + 1
  | .operators clauses => clauseLevels clauses + 1

def fieldLevels : List (String × Node) → Nat
  | [] => 0
  | (_, node) :: entries => max node.levels (fieldLevels entries)

def clauseLevels : List Clause → Nat
  | [] => 0
  | c :: clauses => max c.levels (clauseLevels clauses)

def Clause.levels : Clause → Nat
  | .compare _ _ => 0
  | .quantify _ node => node.levels
  | .combine _ nodes => itemLevels nodes

def itemLevels : List Node → Nat
  | [] => 0
  | node :: nodes => max node.levels (itemLevels nodes)

end

namespace QueryRules

variable {r : QueryRules}

mutual

theorem path_ne_empty (v : Value) {depth : Nat} {node : Node}
    (h : r.parseValue depth v = .ok node) {path : String} (hp : path ≠ "") :
    ∀ e ∈ node.lower path, e.path ≠ "" := by
  cases v with
  | document level =>
    obtain ⟨-, ⟨-, fs, hfs, rfl⟩ | ⟨-, -, cs, hcs, rfl⟩⟩ := parseValue_document_eq_ok.mp h
    · exact path_ne_empty_of_fields level hfs path
    · exact fun e he => path_of_mem_lowerClauses he ▸ hp
  | array items =>
    obtain ⟨-, rfl⟩ := parseValue_array_eq_ok.mp h
    exact List.forall_mem_singleton.mpr hp
  | _ =>
    obtain rfl := (parseValue_eq_ok_of_isPlain (by simp [Value.IsPlain])).mp h
    exact List.forall_mem_singleton.mpr hp

theorem path_ne_empty_of_fields (entries : List (String × Value)) {depth : Nat} {level : Document}
    {fs : List (String × Node)} (h : r.parseFields depth level entries = .ok fs) (path : String) :
    ∀ e ∈ lowerFields path fs, e.path ≠ "" := by
  cases entries with
  | nil =>
    obtain rfl : [] = fs := by simpa [parseFields] using h
    exact List.forall_mem_nil _
  | cons e entries =>
    obtain ⟨name, v⟩ := e
    obtain ⟨hne, node, hnode, rest, hrest, rfl⟩ := parseFields_cons_eq_ok.mp h
    exact List.forall_mem_append.mpr
      ⟨path_ne_empty v hnode (Path.join_ne_empty hne), path_ne_empty_of_fields entries hrest path⟩

end

mutual

theorem levels_le (v : Value) {depth : Nat} {node : Node} (h : r.parseValue depth v = .ok node) :
    node.levels ≤ r.maxDepth + 1 - depth := by
  cases v with
  | document level =>
    obtain ⟨hd, ⟨-, fs, hfs, rfl⟩ | ⟨-, -, cs, hcs, rfl⟩⟩ := parseValue_document_eq_ok.mp h
    · have hlevels := fieldLevels_le level hfs
      rw [Node.levels]
      omega
    · have hlevels := clauseLevels_le level hcs
      rw [Node.levels]
      omega
  | array items =>
    obtain ⟨-, rfl⟩ := parseValue_array_eq_ok.mp h
    exact Nat.zero_le _
  | _ =>
    obtain rfl := (parseValue_eq_ok_of_isPlain (by simp [Value.IsPlain])).mp h
    exact Nat.zero_le _

theorem fieldLevels_le (entries : List (String × Value)) {depth : Nat} {level : Document}
    {fs : List (String × Node)} (h : r.parseFields depth level entries = .ok fs) :
    fieldLevels fs ≤ r.maxDepth - depth := by
  cases entries with
  | nil =>
    obtain rfl : [] = fs := by simpa [parseFields] using h
    exact Nat.zero_le _
  | cons e entries =>
    obtain ⟨name, v⟩ := e
    obtain ⟨-, node, hnode, rest, hrest, rfl⟩ := parseFields_cons_eq_ok.mp h
    have hv := levels_le v hnode
    have hes := fieldLevels_le entries hrest
    rw [fieldLevels]
    omega

theorem clauseLevels_le (entries : List (String × Value)) {depth : Nat} {level : Document}
    {cs : List Clause} (h : r.parseClauses depth level entries = .ok cs) :
    clauseLevels cs ≤ r.maxDepth - depth := by
  cases entries with
  | nil =>
    obtain rfl : [] = cs := by simpa [parseClauses] using h
    exact Nat.zero_le _
  | cons e entries =>
    obtain ⟨token, v⟩ := e
    obtain ⟨op, -, c, hc, rest, hrest, rfl⟩ := parseClauses_cons_eq_ok.mp h
    have hes := clauseLevels_le entries hrest
    have hlevels : c.levels ≤ r.maxDepth - depth := by
      cases ha : op.arity with
      | scalar =>
        obtain ⟨-, rfl⟩ := (parsesClause_of_scalar ha).mp hc
        exact Nat.zero_le _
      | nested =>
        obtain ⟨node, hnode, rfl⟩ := (parsesClause_of_nested ha).mp hc
        have hv := levels_le v hnode
        rw [Clause.levels]
        omega
      | nestedList =>
        cases v with
        | array items =>
          obtain ⟨_, hv, nodes, hnodes, rfl⟩ := (parsesClause_of_nestedList ha).mp hc
          obtain rfl := Value.array.inj hv
          have hitems := itemLevels_le items hnodes
          rw [Clause.levels]
          omega
        | _ => simp [parsesClause_of_nestedList ha] at hc
    rw [clauseLevels]
    omega

theorem itemLevels_le (items : List Value) {depth : Nat} {nodes : List Node}
    (h : r.parseItems depth items = .ok nodes) : itemLevels nodes ≤ r.maxDepth + 1 - depth := by
  cases items with
  | nil =>
    obtain rfl : [] = nodes := by simpa [parseItems] using h
    exact Nat.zero_le _
  | cons v items =>
    obtain ⟨node, hnode, rest, hrest, rfl⟩ := parseItems_cons_eq_ok.mp h
    have hv := levels_le v hnode
    have hes := itemLevels_le items hrest
    rw [itemLevels]
    omega

end

/-- The root level is never too deep, so that there is always room for one. -/
theorem levels_le_of_parse {query : Document} {node : Node} (h : r.parse query = .ok node) :
    node.levels ≤ max r.maxDepth 1 := by
  obtain ⟨-, fs, hfs, rfl⟩ | ⟨-, -, -, cs, hcs, rfl⟩ := parse_eq_ok.mp h
  · have hlevels := fieldLevels_le query hfs
    rw [Node.levels]
    omega
  · have hlevels := clauseLevels_le query hcs
    rw [Node.levels]
    omega

end QueryRules

theorem Operator.arity_eq_nestedList_iff {op : Operator} :
    op.arity = .nestedList ↔ op = .and ∨ op = .or ∨ op = .nor := by
  cases op <;> simp [arity]

theorem Operator.arity_eq_nested_iff {op : Operator} :
    op.arity = .nested ↔ op = .anyItem ∨ op = .everyItem ∨ op = .not := by
  cases op <;> simp [arity]

theorem Operator.arity_eq_scalar_iff {op : Operator} :
    op.arity = .scalar ↔ op ∉ [and, or, nor, anyItem, everyItem, not] := by
  cases op <;> simp [arity]

namespace Expression.Fits

variable {n : Nat} {e : Expression}

theorem combine_iff (h : e.Fits n) : (∃ path op branches, e = .combine path op branches) ↔
    e.operator.arity = .nestedList := by
  cases h with
  | combine ha => exact iff_of_true ⟨_, _, _, rfl⟩ ha
  | compare ha | quantify ha => simp [operator, ha]

theorem quantify_iff (h : e.Fits n) : (∃ path op body, e = .quantify path op body) ↔
    e.operator.arity = .nested := by
  cases h with
  | quantify ha => exact iff_of_true ⟨_, _, _, rfl⟩ ha
  | compare ha | combine ha => simp [operator, ha]

theorem compare_iff (h : e.Fits n) : (∃ path op v, e = .compare path op v) ↔
    e.operator.arity = .scalar := by
  cases h with
  | compare ha => exact iff_of_true ⟨_, _, _, rfl⟩ ha
  | quantify ha | combine ha => simp [operator, ha]

theorem exists_set (h : e.Fits n) (ho : e.operator = .isIn ∨ e.operator = .notIn) :
    ∃ path op items, e = .compare path op (.array items) ∧ items.length ≤ n := by
  cases h with
  | compare ha hv hs =>
    obtain ⟨items, rfl, hlength⟩ := hs ho
    exact ⟨_, _, items, rfl, hlength⟩
  | quantify ha | combine ha =>
    simp only [operator] at ho
    obtain rfl | rfl := ho <;> simp [Operator.arity] at ha

end Expression.Fits

namespace QueryRules

/-- The conditions of a root level of operators are alternatives. -/
theorem combine_of_mem_lowerClauses {r : QueryRules} {level query : Document} {depth : Nat}
    {cs : List Clause} (hc : r.OnlyCombinators query)
    (h : r.parseClauses depth level query = .ok cs) :
    ∀ e ∈ lowerClauses "" cs, ∃ op branches, e = .combine "" op branches := by
  induction query generalizing cs with
  | nil =>
    obtain rfl : [] = cs := by simpa [parseClauses] using h
    exact List.forall_mem_nil _
  | cons entry query ih =>
    obtain ⟨token, v⟩ := entry
    obtain ⟨op, hop, c, hparses, rest, hrest, rfl⟩ := parseClauses_cons_eq_ok.mp h
    obtain ⟨⟨written, hw, hcombinator⟩, hquery⟩ := List.forall_mem_cons.mp hc
    have ha : written.arity = .nestedList := of_decide_eq_true hcombinator
    rw [Vocabulary.normalize?, hw, Option.map_some, Operator.soften_of_nestedList ha] at hop
    obtain rfl := Option.some.inj hop
    obtain ⟨items, -, nodes, -, rfl⟩ := (parsesClause_of_nestedList ha).mp hparses
    exact List.forall_mem_cons.mpr ⟨⟨written, lowerBranches nodes, rfl⟩, ih hquery hrest⟩

end QueryRules

end RecordStore
