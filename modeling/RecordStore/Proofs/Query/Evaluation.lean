import RecordStore.Proofs.Query.Compiled

namespace RecordStore

/-- A plain condition as far as there is a rule for it: none for operators on sub-queries. Extensions
are known, and never hold. -/
def Operator.answer? (op : Operator) (field : Option Value) (v : Value) : Option Bool :=
  match op with
  | and | or | nor | anyItem | everyItem | not => none
  | extension _ => some false
  | op => some (op.compares field v)

mutual

/-- Evaluation without an answer of last resort. It comes to nothing at a condition whose operator
does not go with what it carries. -/
def Expression.answer? (s : Scope) : Expression → Option Bool
  | .compare path op v => op.answer? (s.descend path).value? v
  | .quantify path op body =>
    match op with
    | .not => (answers? (s.descend path) body).map (!·)
    | .anyItem =>
      match (s.descend path).items? with
      | some items => items.anyM fun i => answers? (.value (some i)) body
      | none => some false
    | .everyItem =>
      match (s.descend path).items? with
      | some items => items.allM fun i => answers? (.value (some i)) body
      | none => some false
    | _ => none
  | .combine path op branches =>
    match op with
    | .and => everyAnswer? (s.descend path) branches
    | .or => someAnswer? (s.descend path) branches
    | .nor => (someAnswer? (s.descend path) branches).map (!·)
    | _ => none

def answers? (s : Scope) : List Expression → Option Bool
  | [] => some true
  | e :: es => (e.answer? s).bind fun holds => if holds then answers? s es else some false

def everyAnswer? (s : Scope) : List (List Expression) → Option Bool
  | [] => some true
  | es :: branches => (answers? s es).bind fun hold =>
    if hold then everyAnswer? s branches else some false

def someAnswer? (s : Scope) : List (List Expression) → Option Bool
  | [] => some false
  | es :: branches => (answers? s es).bind fun hold =>
    if hold then some true else someAnswer? s branches

end

theorem anyM_eq_some {α : Type} {f : α → Option Bool} {g : α → Bool} (h : ∀ a, f a = some (g a))
    (as : List α) : as.anyM f = some (as.any g) := by
  induction as with
  | nil => rfl
  | cons a as ih =>
    rw [List.anyM, h, List.any_cons, ih]
    cases g a <;> rfl

theorem allM_eq_some {α : Type} {f : α → Option Bool} {g : α → Bool} (h : ∀ a, f a = some (g a))
    (as : List α) : as.allM f = some (as.all g) := by
  induction as with
  | nil => rfl
  | cons a as ih =>
    rw [List.allM, h, List.all_cons, ih]
    cases g a <;> rfl

theorem Operator.answer?_of_scalar {op : Operator} (ha : op.arity = .scalar) (field : Option Value)
    (v : Value) : op.answer? field v = some (op.compares field v) := by
  cases op <;> first | rfl | exact nomatch ha

section Answers

variable {n : Nat}

mutual

/-- Where operators fit, evaluation never comes to nothing. -/
theorem Expression.answer?_eq (e : Expression) (h : AllFit n [e]) (s : Scope) :
    e.answer? s = some (e.holds s) := by
  cases e with
  | compare path op v =>
    cases allFit_compare.mp h with
    | compare ha hv hs => exact Operator.answer?_of_scalar ha _ _
  | quantify path op body =>
    obtain ⟨ha, hbody⟩ := allFit_quantify.mp h
    have hs := answers?_eq body hbody
    rw [Expression.holds_quantify]
    cases op with
    | not => rw [Expression.answer?, hs, Option.map_some, Operator.quantifies]
    | anyItem =>
      rw [Expression.answer?, Operator.quantifies]
      cases (s.descend path).items? with
      | none => rfl
      | some items => exact anyM_eq_some (fun i => hs (.value (some i))) items
    | everyItem =>
      rw [Expression.answer?, Operator.quantifies]
      cases (s.descend path).items? with
      | none => rfl
      | some items => exact allM_eq_some (fun i => hs (.value (some i))) items
    | _ => exact nomatch ha
  | combine path op branches =>
    obtain ⟨ha, hbranches⟩ := allFit_combine.mp h
    cases op with
    | and => exact everyAnswer?_eq branches hbranches _
    | or => exact someAnswer?_eq branches hbranches _
    | nor =>
      rw [Expression.answer?, someAnswer?_eq branches hbranches, Expression.holds, Option.map_some]
    | _ => exact nomatch ha

theorem answers?_eq (es : List Expression) (h : AllFit n es) (s : Scope) :
    answers? s es = some (allHold s es) := by
  cases es with
  | nil => rfl
  | cons e es =>
    obtain ⟨he, hes⟩ := allFit_cons.mp h
    rw [answers?, allHold, Expression.answer?_eq e he, answers?_eq es hes, Option.bind_some]
    cases e.holds s <;> rfl

theorem everyAnswer?_eq (branches : List (List Expression))
    (h : ∀ branch ∈ branches, AllFit n branch) (s : Scope) :
    everyAnswer? s branches = some (everyBranchHolds s branches) := by
  cases branches with
  | nil => rfl
  | cons es branches =>
    obtain ⟨hes, hbranches⟩ := List.forall_mem_cons.mp h
    rw [everyAnswer?, everyBranchHolds, answers?_eq es hes, everyAnswer?_eq branches hbranches,
      Option.bind_some]
    cases allHold s es <;> rfl

theorem someAnswer?_eq (branches : List (List Expression))
    (h : ∀ branch ∈ branches, AllFit n branch) (s : Scope) :
    someAnswer? s branches = some (someBranchHolds s branches) := by
  cases branches with
  | nil => rfl
  | cons es branches =>
    obtain ⟨hes, hbranches⟩ := List.forall_mem_cons.mp h
    rw [someAnswer?, someBranchHolds, answers?_eq es hes, someAnswer?_eq branches hbranches,
      Option.bind_some]
    cases allHold s es <;> rfl

end

end Answers

namespace QueryRules

/-- In a compiled query, at any depth, branches stand behind combinators, a body behind the other
operators on sub-queries and a plain operand, which is no document, behind all others; sets are
arrays within the limit. At the top, only combinators are about the record itself. The query has no
more levels than the rules allow, and evaluating it on a record never comes to nothing. -/
theorem wellFormed_of_compile {r : QueryRules} {query : Document} {es : List Expression}
    (h : r.compile query = .ok es) :
    (∀ e, Within es e →
      ((∃ path op branches, e = .combine path op branches) ↔
        e.operator = .and ∨ e.operator = .or ∨ e.operator = .nor) ∧
      ((∃ path op body, e = .quantify path op body) ↔
        e.operator = .anyItem ∨ e.operator = .everyItem ∨ e.operator = .not) ∧
      ((∃ path op v, e = .compare path op v) ↔
        e.operator ∉ [.and, .or, .nor, .anyItem, .everyItem, .not]) ∧
      (∀ path op d, e ≠ .compare path op (.document d)) ∧
      (e.operator = .isIn ∨ e.operator = .notIn →
        ∃ path op items, e = .compare path op (.array items) ∧ items.length ≤ r.maxInSet)) ∧
    (∀ e ∈ es, e.path = "" → ∃ op branches, e = .combine "" op branches) ∧
    (∃ node, r.parse query = .ok node ∧ node.lower "" = es ∧ node.levels ≤ max r.maxDepth 1) ∧
    ∀ d, answers? (.record d) es = some (d.satisfies es) := by
  have hfit := allFit_compile h
  refine ⟨fun e he => ?_, fun e he hp => ?_, ?_, fun d => answers?_eq es hfit (.record d)⟩
  · have hfits := hfit e he
    refine ⟨?_, ?_, ?_, ?_, hfits.exists_set⟩
    · rw [hfits.combine_iff, Operator.arity_eq_nestedList_iff]
    · rw [hfits.quantify_iff, Operator.arity_eq_nested_iff]
    · rw [hfits.compare_iff, Operator.arity_eq_scalar_iff]
    · rintro path op d rfl
      cases hfits with
      | compare ha hv hs => exact hv d rfl
  · obtain ⟨node, hnode, rfl⟩ := compile_eq_ok.mp h
    obtain ⟨-, fs, hfs, rfl⟩ | ⟨-, -, hc, cs, hcs, rfl⟩ := parse_eq_ok.mp hnode
    · exact absurd hp (path_ne_empty_of_fields query hfs "" e he)
    · exact combine_of_mem_lowerClauses hc hcs e he
  · obtain ⟨node, hnode, hlower⟩ := compile_eq_ok.mp h
    exact ⟨node, hnode, hlower, levels_le_of_parse hnode⟩

/-- An extension below a negated set and an operator on items, both inside a combinator. -/
theorem wellFormed_of_compile_near :
    let r : QueryRules := ⟨Vocabulary.standard.withExtension "$near", 4, 2⟩
    let query : Document := [("$nor", .array [
      .document [("cast", .document [("$every", .document [("$near", .string "Ann")])])],
      .document [("year", .document [("$not", .array [.int32 1979, .int32 1986])])],
      .int32 5])]
    let d : Document := [("cast", .array []), ("year", .int64 1986)]
    let es : List Expression := [.combine "" .nor [
      [.quantify "cast" .everyItem [.compare "" (.extension "$near") (.string "Ann")]],
      [.compare "year" .notIn (.array [.int32 1979, .int32 1986])],
      [.compare "" .equal (.int32 5)]]]
    r.compile query = .ok es ∧
      (∀ e, Within es e → e.operator = .isIn ∨ e.operator = .notIn →
        ∃ path op items, e = .compare path op (.array items) ∧ items.length ≤ 2) ∧
      (∀ e ∈ es, e.path = "" → ∃ op branches, e = .combine "" op branches) ∧
      (∃ node, r.parse query = .ok node ∧ node.lower "" = es ∧ node.levels ≤ 4) ∧
      answers? (.record d) es = some (d.satisfies es) ∧ d.satisfies es = false := by
  intro r query d es
  have h : r.compile query = .ok es := rfl
  obtain ⟨hwithin, htop, hlevels, hanswers⟩ := wellFormed_of_compile h
  exact ⟨h, fun e he => (hwithin e he).2.2.2.2, htop, hlevels, hanswers d, rfl⟩

end QueryRules

end RecordStore
