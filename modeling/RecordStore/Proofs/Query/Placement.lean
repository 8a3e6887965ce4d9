import RecordStore.Proofs.Query.Compiled
import RecordStore.Proofs.Query.Negation

namespace RecordStore

mutual

/-- The comparisons that a condition makes with what it is evaluated on as a whole. Negations and
combinators stay with it, all other conditions go on to attributes or items. -/
def Expression.wholeComparisons : Expression → List (Operator × Value)
  | .compare path op v => if path = "" then [(op, v)] else []
  | .quantify path op body => if path = "" ∧ op = .not then wholeComparisons body else []
  | .combine path _ branches => if path = "" then branchComparisons branches else []

def wholeComparisons : List Expression → List (Operator × Value)
  | [] => []
  | e :: es => e.wholeComparisons ++ wholeComparisons es

def branchComparisons : List (List Expression) → List (Operator × Value)
  | [] => []
  | es :: branches => wholeComparisons es ++ branchComparisons branches

end

namespace Operator

/-- A comparison that answers for a document otherwise than for an absent value: equality with a
null value, or membership in a set that has only one of null and the document. -/
def TellsFromAbsent (op : Operator) (d : Document) (v : Value) : Prop :=
  ((op = equal ∨ op = notEqual) ∧ (v = .null ∨ v = .undefined)) ∨
    (op = isIn ∨ op = notIn) ∧ ∃ items, v = .array items ∧
      ¬ (.null ∈ items ↔ ∃ v ∈ items, (Value.document d).same v = true)

variable {d : Document} {op : Operator} {v : Value} {items : List Value}

theorem tellsFromAbsent_plain (ho : op = equal ∨ op = notEqual) :
    op.TellsFromAbsent d v ↔ v = .null ∨ v = .undefined := by
  obtain rfl | rfl := ho <;> simp [TellsFromAbsent]

theorem tellsFromAbsent_set (ho : op = isIn ∨ op = notIn) :
    op.TellsFromAbsent d (.array items) ↔
      ¬ (.null ∈ items ↔ ∃ v ∈ items, (Value.document d).same v = true) := by
  obtain rfl | rfl := ho <;> simp [TellsFromAbsent]

theorem equalTo_none_eq_iff (hv : ∀ d, v ≠ .document d) :
    equalTo none v = equalTo (some (.document d)) v ↔ ¬ (v = .null ∨ v = .undefined) := by
  cases v with
  | document d => exact absurd rfl (hv d)
  | null | undefined => exact iff_of_false nofun (fun h => h (by simp))
  | _ => exact iff_of_true rfl (by simp)

theorem any_isNull_iff : items.any Value.isNull = true ↔ .null ∈ items := by
  rw [List.any_eq_true]
  constructor
  · rintro ⟨v, hv, hn⟩
    cases v <;> first | exact hv | exact nomatch hn
  · exact fun h => ⟨_, h, rfl⟩

theorem memberOf_none_eq_iff :
    memberOf none (.array items) = memberOf (some (.document d)) (.array items) ↔
      (.null ∈ items ↔ ∃ v ∈ items, (Value.document d).same v = true) := by
  rw [← any_isNull_iff, ← List.any_eq_true, ← Bool.eq_iff_iff]
  rfl

theorem compares_none_eq_iff (hv : ∀ d, v ≠ .document d)
    (hs : op = .isIn ∨ op = .notIn → ∃ items, v = .array items) :
    op.compares none v = op.compares (some (.document d)) v ↔ ¬ op.TellsFromAbsent d v := by
  cases op with
  | equal =>
    rw [tellsFromAbsent_plain (.inl rfl)]
    exact equalTo_none_eq_iff hv
  | notEqual =>
    rw [tellsFromAbsent_plain (.inr rfl), ← equalTo_none_eq_iff hv]
    exact Bool.not_inj_iff
  | isIn =>
    obtain ⟨items, rfl⟩ := hs (.inl rfl)
    rw [tellsFromAbsent_set (.inl rfl), Classical.not_not]
    exact memberOf_none_eq_iff
  | notIn =>
    obtain ⟨items, rfl⟩ := hs (.inr rfl)
    rw [tellsFromAbsent_set (.inr rfl), Classical.not_not, ← memberOf_none_eq_iff]
    exact Bool.not_inj_iff
  | _ => exact iff_of_true (by cases v <;> rfl) (by simp [TellsFromAbsent])

end Operator

theorem Expression.Fits.compares_iff {n : Nat} {path : String} {op : Operator} {v : Value}
    (h : (Expression.compare path op v).Fits n) (d : Document) :
    op.compares none v = op.compares (some (.document d)) v ↔ ¬ op.TellsFromAbsent d v := by
  cases h with
  | compare ha hv hs =>
    refine Operator.compares_none_eq_iff hv fun ho => ?_
    obtain ⟨items, rfl, -⟩ := hs ho
    exact ⟨items, rfl⟩

section Scopes

variable {n : Nat} {d : Document}

mutual

/-- A condition holds on a record as on the document that it is, if none of the comparisons with
the whole record tells the two apart. -/
theorem Expression.holds_record_eq (e : Expression) (hfit : AllFit n [e])
    (h : ∀ c ∈ e.wholeComparisons, ¬ c.1.TellsFromAbsent d c.2) :
    e.holds (.record d) = e.holds (.value (some (.document d))) := by
  by_cases hp : e.path = ""
  · cases e with
    | compare path op v =>
      obtain rfl : path = "" := hp
      have hv := h (op, v) (by simp [Expression.wholeComparisons])
      exact ((allFit_compare.mp hfit).compares_iff d).mpr hv
    | quantify path op body =>
      obtain rfl : path = "" := hp
      cases op with
      | not =>
        have hbody := allHold_record_eq body (allFit_quantify.mp hfit).2
          (by simpa [Expression.wholeComparisons] using h)
        simp only [Expression.holds, Scope.descend_empty, hbody]
      | _ => rfl
    | combine path op branches =>
      obtain rfl : path = "" := hp
      have hbranches := branchesHold_record_eq branches (allFit_combine.mp hfit).2
        (by simpa [Expression.wholeComparisons] using h)
      simp only [Expression.holds_combine, Scope.descend_empty, hbranches]
  · -- a path that leads on is followed from the attributes, which are the same
    have hdescend : (Scope.record d).descend e.path =
        (Scope.value (some (.document d))).descend e.path := by
      simp only [Scope.descend, if_neg hp]
    cases e <;> simp only [Expression.path] at hdescend <;> simp only [Expression.holds, hdescend]

theorem allHold_record_eq (es : List Expression) (hfit : AllFit n es)
    (h : ∀ c ∈ wholeComparisons es, ¬ c.1.TellsFromAbsent d c.2) :
    allHold (.record d) es = allHold (.value (some (.document d))) es := by
  cases es with
  | nil => rfl
  | cons e es =>
    obtain ⟨he, hes⟩ := allFit_cons.mp hfit
    rw [wholeComparisons, List.forall_mem_append] at h
    rw [allHold, allHold, Expression.holds_record_eq e he h.1, allHold_record_eq es hes h.2]

theorem branchesHold_record_eq (branches : List (List Expression))
    (hfit : ∀ branch ∈ branches, AllFit n branch)
    (h : ∀ c ∈ branchComparisons branches, ¬ c.1.TellsFromAbsent d c.2) :
    (branches.map fun es => allHold (.record d) es) =
      branches.map fun es => allHold (.value (some (.document d))) es := by
  cases branches with
  | nil => rfl
  | cons es branches =>
    obtain ⟨hes, hbranches⟩ := List.forall_mem_cons.mp hfit
    rw [branchComparisons, List.forall_mem_append] at h
    rw [List.map_cons, List.map_cons, allHold_record_eq es hes h.1,
      branchesHold_record_eq branches hbranches h.2]

end

end Scopes

namespace QueryRules

variable {r : QueryRules} {q : Document} {es fs : List Expression}

/-- A query on the attribute that holds a document is evaluated on the document as a value. It
means what the query means on the document alone if no comparison with the whole of it tells a
document from an absent value; where the query is one such comparison, only then. -/
theorem satisfies_placed {a : String} (ha : Path.IsName a) (hes : r.compile q = .ok es)
    (hfs : r.compile [(a, .document q)] = .ok fs) (d : Document) :
    Document.satisfies [(a, .document d)] fs = allHold (.value (some (.document d))) es ∧
    ((∀ c ∈ wholeComparisons es, ¬ c.1.TellsFromAbsent d c.2) →
      Document.satisfies [(a, .document d)] fs = d.satisfies es) ∧
    ∀ op v, es = [.combine "" .and [[.compare "" op v]]] →
      (Document.satisfies [(a, .document d)] fs = d.satisfies es ↔
        ¬ op.TellsFromAbsent d v) := by
  have hget : Document.getPath [(a, .document d)] (Path.ofString a) = some (.document d) := by
    simp [Path.ofString_of_isName ha, Document.getPath, Document.getAt, Document.get?]
  have hplaced : Document.satisfies [(a, .document d)] fs =
      allHold (.value (some (.document d))) es := by
    rw [satisfies_attribute (attribute_of_compile hfs) hfs, hget, Value.holdsIn,
      allHold_compile hes]
  have hfit := allFit_compile hes
  refine ⟨hplaced, fun h => ?_, ?_⟩
  · rw [hplaced, Document.satisfies, allHold_record_eq es hfit h]
  · rintro op v rfl
    have hinner : AllFit r.maxInSet [.compare "" op v] :=
      (allFit_combine.mp hfit).2 _ List.mem_cons_self
    rw [← (allFit_compare.mp hinner).compares_iff d, hplaced, eq_comm]
    simp [Document.satisfies, allHold, Expression.holds, everyBranchHolds, Scope.value?]

/-- A set that has both null and the document does not tell. -/
theorem satisfies_placed_film :
    let r : QueryRules := ⟨.standard, 4, 2⟩
    let d : Document := [("title", .string "Alien")]
    let q : Document := [("$or", .array [
      .document [("year", .int32 1979)], .array [.null, .document [("title", .string "Alien")]]])]
    let branches : List (List Expression) := [[.compare "year" .equal (.int32 1979)],
      [.compare "" .isIn (.array [.null, .document [("title", .string "Alien")]])]]
    Path.IsName "film" ∧ r.compile q = .ok [.combine "" .or branches] ∧
      r.compile [("film", .document q)] = .ok [.combine "film" .or branches] ∧
      Document.satisfies [("film", .document d)] [.combine "film" .or branches] =
        d.satisfies [.combine "" .or branches] ∧
      d.satisfies [.combine "" .or branches] = true := by
  intro r d q branches
  have ha : Path.IsName "film" := by decide
  have hes : r.compile q = .ok [.combine "" .or branches] := rfl
  have hfs : r.compile [("film", .document q)] = .ok [.combine "film" .or branches] := by
    simp only [q]
    rfl
  obtain ⟨-, hsame, -⟩ := satisfies_placed ha hes hfs d
  refine ⟨ha, hes, hfs, hsame ?_, rfl⟩
  refine List.forall_mem_singleton.mpr ?_
  rw [Operator.tellsFromAbsent_set (.inl rfl), Classical.not_not]
  exact iff_of_true List.mem_cons_self ⟨.document d, by simp [d], rfl⟩

/-- Every record alone equals null, and none does where it is an attribute. -/
theorem satisfies_null_not_placed :
    ¬ ∀ (r : QueryRules) (q d : Document) (a : String) (es fs : List Expression),
      Path.IsName a → looksLikeOperator a = false → r.compile q = .ok es →
      r.compile [(a, .document q)] = .ok fs →
      Document.satisfies [(a, .document d)] fs = d.satisfies es := by
  intro h
  have hsame := h ⟨.standard, 10, 1000⟩ [("$and", .array [.null])] [] "film" _ _
    (by decide) rfl rfl rfl
  exact absurd hsame (by decide)

end QueryRules

end RecordStore
