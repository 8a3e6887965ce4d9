import RecordStore.Proofs.Query.Grammar
import RecordStore.Proofs.Query.Negation

namespace RecordStore

namespace Operator

theorem memberOf_singleton_eq_iff {field : Option Value} {v : Value}
    (hf : ∀ items, field ≠ some (.array items)) :
    memberOf field (.array [v]) = equalTo field v ↔ ¬ (field = none ∧ v = .undefined) := by
  cases field with
  | none => cases v <;> simp [memberOf, equalTo, Value.isNull, Value.isUndefined]
  | some f =>
    have hone : memberOf (some f) (.array [v]) = f.same v := by
      cases f with
      | array items => exact absurd rfl (hf items)
      | _ => exact Bool.or_false _
    exact iff_of_true hone (by simp)

theorem compares_singleton_eq_iff {op : Operator} (ho : op = isIn ∨ op = notIn)
    {field : Option Value} {v : Value} (hf : ∀ items, field ≠ some (.array items))
    (hv : v.IsPlain) :
    op.compares field (.array [v]) = (op.soften v).compares field v ↔
      ¬ (field = none ∧ v = .undefined) := by
  rw [← memberOf_singleton_eq_iff hf]
  obtain rfl | rfl := ho
  · have hsoft : isIn.soften v = equal := by
      cases v with
      | array items => exact absurd rfl (hv.2 items)
      | _ => rfl
    rw [hsoft]
    rfl
  · have hsoft : notIn.soften v = notEqual := by
      cases v with
      | array items => exact absurd rfl (hv.2 items)
      | _ => rfl
    rw [hsoft]
    exact Bool.not_inj_iff

end Operator

namespace QueryRules

/-- What a query says of a record; nothing if it is refused. -/
def answer? (r : QueryRules) (query d : Document) : Option Bool :=
  (r.compile query).toOption.map d.satisfies

variable {r : QueryRules}

theorem answer?_of_compile {query : Document} {es : List Expression}
    (h : r.compile query = .ok es) (d : Document) : r.answer? query d = some (d.satisfies es) := by
  rw [answer?, h]
  rfl

theorem answer?_eq_none {query : Document} (h : ¬ ∃ es, r.compile query = .ok es) (d : Document) :
    r.answer? query d = none := by
  rw [answer?]
  cases hc : r.compile query with
  | error e => rfl
  | ok es => exact absurd ⟨es, hc⟩ h

theorem answer?_condition {token : String} {op : Operator} (hs : r.vocabulary.Spells token op)
    {p : String} (hp : p ≠ "") (hk : looksLikeOperator p = false) {v : Value}
    (ha : (op.soften v).arity = .scalar) (hv : ∀ d, v ≠ .document d)
    (hfits : r.FitsSet (op.soften v) v) (d : Document) :
    r.answer? [(p, .document [(token, v)])] d =
      if 2 ≤ r.maxDepth then
        some ((op.soften v).compares (d.getPath (Path.ofString p)) v)
      else none := by
  have hop := hs.normalize?_eq v
  have hclause : r.AcceptsClause 2 (token, v) :=
    ⟨_, hop, (acceptsOperand_scalar ha).mpr ⟨hv, hfits⟩⟩
  have hlevel : Document.OnlyOperators [(token, v)] := List.forall_mem_singleton.mpr hs.marked
  have hattribute : Document.OnlyAttributes [(p, Value.document [(token, v)])] :=
    List.forall_mem_singleton.mpr hk
  by_cases hd : 2 ≤ r.maxDepth
  · have haccepts : r.AcceptsQuery [(p, .document [(token, v)])] := by
      refine acceptsQuery_iff.mpr (.inl ⟨hattribute, List.forall_mem_singleton.mpr ⟨hp, ?_⟩⟩)
      exact accepts_document.mpr ⟨hd, .inr ⟨hlevel, List.forall_mem_singleton.mpr hclause⟩⟩
    obtain ⟨es, hes⟩ := (exists_compile _).mpr haccepts
    rw [if_pos hd, answer?_of_compile hes, satisfies_attribute hk hes, Value.holdsIn,
      levelHoldsIn_scalar _ _ _ hs.marked hop ha, levelHoldsIn, Bool.and_true]
    rfl
  · rw [if_neg hd]
    apply answer?_eq_none
    rw [exists_compile, acceptsQuery_iff]
    -- the clause is a second level
    rintro (⟨-, hfields⟩ | ⟨hoperators, -⟩)
    · exact hd (accepts_document.mp (hfields _ List.mem_cons_self).2).1
    · exact absurd (hoperators _ List.mem_cons_self) (by simp [hk])

theorem answer?_singleton_eq_iff (hset : 1 ≤ r.maxInSet) {token : String} {op : Operator}
    (hs : r.vocabulary.Spells token op) (ho : op = .isIn ∨ op = .notIn) {p : String} (hp : p ≠ "")
    (hk : looksLikeOperator p = false) {v : Value} (hv : v.IsPlain) {d : Document}
    (hd : ∀ items, d.getPath (Path.ofString p) ≠ some (.array items)) :
    r.answer? [(p, .document [(token, v)])] d =
        r.answer? [(p, .document [(token, .array [v])])] d ↔
      ¬ (2 ≤ r.maxDepth ∧ d.getPath (Path.ofString p) = none ∧ v = .undefined) := by
  have hkeeps : op.soften (.array [v]) = op := by obtain rfl | rfl := ho <;> rfl
  have hscalar : op.arity = .scalar := by obtain rfl | rfl := ho <;> rfl
  have hone : r.FitsSet op (.array [v]) := by
    rintro - items h
    obtain rfl := Value.array.inj h
    exact hset
  have hbare : r.answer? [(p, .document [(token, v)])] d = if 2 ≤ r.maxDepth then
      some ((op.soften v).compares (d.getPath (Path.ofString p)) v) else none := by
    refine answer?_condition hs hp hk ?_ hv.1 (fun _ items h => absurd h (hv.2 items)) d
    obtain rfl | rfl := ho <;> cases v <;> rfl
  have harray : r.answer? [(p, .document [(token, .array [v])])] d = if 2 ≤ r.maxDepth then
      some (op.compares (d.getPath (Path.ofString p)) (.array [v])) else none := by
    have h := answer?_condition hs hp hk (v := .array [v]) (hkeeps.symm ▸ hscalar)
      (by simp) (hkeeps.symm ▸ hone) d
    rwa [hkeeps] at h
  rw [hbare, harray]
  by_cases hdepth : 2 ≤ r.maxDepth
  · rw [if_pos hdepth, if_pos hdepth, Option.some_inj, eq_comm,
      Operator.compares_singleton_eq_iff ho hd hv]
    simp only [hdepth, true_and]
  · -- both are refused
    simp only [hdepth, if_false, false_and, not_false_iff]

/-- Of a record without an array at an attribute, membership in a value says what membership in the
set of this value says, and the same goes for its negation, unless there is nothing and the value is
undefined. -/
theorem answer?_softened (hset : 1 ≤ r.maxInSet) {membership exclusion : String}
    (hin : r.vocabulary.Spells membership .isIn) (hout : r.vocabulary.Spells exclusion .notIn)
    {p : String} (hp : p ≠ "") (hk : looksLikeOperator p = false) {v : Value} (hv : v.IsPlain)
    {d : Document} (hd : ∀ items, d.getPath (Path.ofString p) ≠ some (.array items)) :
    (r.answer? [(p, .document [(membership, v)])] d =
        r.answer? [(p, .document [(membership, .array [v])])] d ↔
      ¬ (2 ≤ r.maxDepth ∧ d.getPath (Path.ofString p) = none ∧ v = .undefined)) ∧
    (r.answer? [(p, .document [(exclusion, v)])] d =
        r.answer? [(p, .document [(exclusion, .array [v])])] d ↔
      ¬ (2 ≤ r.maxDepth ∧ d.getPath (Path.ofString p) = none ∧ v = .undefined)) :=
  ⟨answer?_singleton_eq_iff hset hin (.inl rfl) hp hk hv hd,
    answer?_singleton_eq_iff hset hout (.inr rfl) hp hk hv hd⟩

/-- A film without a year, among those whose year is null. -/
theorem answer?_softened_film :
    let r : QueryRules := ⟨.standard, 2, 1⟩
    let film : Document := [("title", .string "Heat")]
    (r.answer? [("year", .document [("$in", .null)])] film = some true ∧
        r.answer? [("year", .document [("$in", .array [.null])])] film = some true) ∧
      r.answer? [("year", .document [("$notIn", .null)])] film =
        r.answer? [("year", .document [("$notIn", .array [.null])])] film := by
  intro r film
  have hplain : Value.null.IsPlain := by simp [Value.IsPlain]
  have hmissing : film.getPath (Path.ofString "year") = none := rfl
  obtain ⟨hin, hout⟩ := answer?_softened (r := r) (by decide : 1 ≤ 1)
    (@Vocabulary.spells_standard "$in" _ rfl) (@Vocabulary.spells_standard "$notIn" _ rfl)
    (by decide : "year" ≠ "") rfl hplain (d := film) (by simp [hmissing])
  have hbare : r.answer? [("year", .document [("$in", .null)])] film = some true := rfl
  exact ⟨⟨hbare, (hin.mpr (by simp)).symm.trans hbare⟩, hout.mpr (by simp)⟩

/-- A missing attribute equals an undefined value, and is not in the set of it. -/
theorem answer?_undefined_not_softened :
    ¬ ∀ (r : QueryRules) (token p : String) (v : Value) (d : Document), 1 ≤ r.maxInSet →
      r.vocabulary.Spells token .isIn → p ≠ "" → looksLikeOperator p = false → v.IsPlain →
      (∀ items, d.getPath (Path.ofString p) ≠ some (.array items)) →
      r.answer? [(p, .document [(token, v)])] d =
        r.answer? [(p, .document [(token, .array [v])])] d := by
  intro h
  have hmissing : Document.getPath [] (Path.ofString "year") = none := rfl
  have hsame := h ⟨.standard, 2, 1⟩ "$in" "year" .undefined [] (by decide)
    (Vocabulary.spells_standard rfl) (by decide) rfl (by simp [Value.IsPlain]) (by simp [hmissing])
  exact absurd hsame (by decide)

end QueryRules

end RecordStore
