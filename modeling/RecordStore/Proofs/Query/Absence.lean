import RecordStore.Proofs.Query.Reading
import RecordStore.Proofs.Value.Settled

namespace RecordStore

def Document.NullsAdded (d e : Document) : Prop :=
  ∀ name, e.get? name = d.get? name ∨ d.get? name = none ∧ e.get? name = some .null

theorem Document.nullsAdded_insert {front back : Document} {a : String}
    (ha : get? (front ++ back) a = none) :
    NullsAdded (front ++ back) (front ++ (a, .null) :: back) := by
  intro name
  simp only [get?, List.lookup_append] at ha ⊢
  by_cases hn : name = a
  · -- the name may not stand in front, or the null would be hidden
    subst hn
    obtain ⟨hfront, -⟩ := Option.or_eq_none_iff.mp ha
    refine .inr ⟨ha, ?_⟩
    rw [hfront, Option.none_or, List.lookup_cons_self]
  · refine .inl ?_
    rw [List.lookup_cons, beq_false_of_ne hn]

namespace Scope

/-- The second scope differs from the first at most in nulls for what is missing. Nothing that is
stored below an attribute differs. -/
inductive NullsAdded : Scope → Scope → Prop
  | records {d e : Document} (h : d.NullsAdded e) : NullsAdded (.record d) (.record e)
  | missing : NullsAdded (.value none) (.value (some .null))
  | same (v : Option Value) : NullsAdded (.value v) (.value v)

variable {s t : Scope}

theorem NullsAdded.step (h : s.NullsAdded t) (name : String) :
    (s.step name).NullsAdded (t.step name) := by
  cases h with
  | records hd =>
    obtain heq | ⟨hnone, hnull⟩ := hd name
    · simp only [Scope.step, attributes?, Option.bind_some, heq]
      exact .same _
    · simp only [Scope.step, attributes?, Option.bind_some, hnone, hnull]
      exact .missing
  | missing => exact .same none
  | same v => exact .same _

theorem NullsAdded.follow (h : s.NullsAdded t) (name : String) :
    (s.follow name).NullsAdded (t.follow name) := by
  rw [Scope.follow, Scope.follow]
  generalize (Path.ofString name).names = names
  induction names generalizing s t with
  | nil => exact h
  | cons first rest ih => exact ih (h.step first)

theorem NullsAdded.items?_eq (h : s.NullsAdded t) : s.items? = t.items? := by
  cases h <;> rfl

end Scope

namespace Operator

theorem compares_null {v : Value} (hv : v ≠ .undefined) (op : Operator) :
    op.compares (some .null) v = op.compares none v := by
  have hequal : equalTo (some .null) v = equalTo none v := by
    cases v with
    | undefined => exact absurd rfl hv
    | _ => rfl
  have hmember : memberOf (some .null) v = memberOf none v := by
    cases v with
    | array items =>
      have hnull : Value.null.same = Value.isNull := by
        funext i
        cases i <;> rfl
      exact congrArg items.any hnull
    | _ => exact hequal
  have hrange : ordering? (some .null) v = ordering? none v := by cases v <;> rfl
  cases op <;> simp only [compares, hequal, hmember, hrange]

theorem compares_eq_of_nullsAdded {s t : Scope} (h : s.NullsAdded t) {v : Value} (hv : v.Settled)
    (op : Operator) : op.compares s.value? v = op.compares t.value? v := by
  cases h with
  | missing => exact (compares_null (fun h => hv (h ▸ .self _)) op).symm
  | _ => rfl

theorem quantifies_congr (op : Operator) {s t : Scope} {sub : Scope → Bool}
    (hitems : s.items? = t.items?) (hsub : sub s = sub t) :
    op.quantifies s sub = op.quantifies t sub := by
  cases op <;> simp only [quantifies, hitems, hsub]

end Operator

section Reading

variable {w : Vocabulary}

mutual

theorem Value.holdsIn_eq_of_nullsAdded (v : Value) (hv : v.Settled) {s t : Scope}
    (h : s.NullsAdded t) : v.holdsIn w s = v.holdsIn w t := by
  cases v with
  | document level =>
    exact levelHoldsIn_eq_of_nullsAdded level (Value.settled_document_iff.mp hv) h
  | _ => simp only [Value.holdsIn, Operator.compares_eq_of_nullsAdded h hv]

theorem levelHoldsIn_eq_of_nullsAdded (entries : List (String × Value))
    (hes : ∀ e ∈ entries, e.2.Settled) {s t : Scope} (h : s.NullsAdded t) :
    levelHoldsIn w s entries = levelHoldsIn w t entries := by
  cases entries with
  | nil => rfl
  | cons e entries =>
    obtain ⟨key, v⟩ := e
    obtain ⟨hv, hrest⟩ := List.forall_mem_cons.mp hes
    have hfollow := v.holdsIn_eq_of_nullsAdded hv (h.follow key)
    have hhere := v.holdsIn_eq_of_nullsAdded hv h
    have hquantifies (op : Operator) :
        op.quantifies s (v.holdsIn w) = op.quantifies t (v.holdsIn w) :=
      op.quantifies_congr h.items?_eq hhere
    have hcompares := Operator.compares_eq_of_nullsAdded h hv
    have hentries := levelHoldsIn_eq_of_nullsAdded entries hrest h
    cases v with
    | array items =>
      -- only an array can stand for a list of sub-queries
      have hitems := itemsHoldIn_eq_of_nullsAdded items (Value.settled_array_iff.mp hv) h
      simp only [levelHoldsIn, hfollow, hquantifies, hcompares, hitems, hentries]
    | _ => simp only [levelHoldsIn, hfollow, hquantifies, hcompares, hentries]

theorem itemsHoldIn_eq_of_nullsAdded (items : List Value) (hi : ∀ v ∈ items, v.Settled)
    {s t : Scope} (h : s.NullsAdded t) : itemsHoldIn w s items = itemsHoldIn w t items := by
  cases items with
  | nil => rfl
  | cons v items =>
    obtain ⟨hv, hrest⟩ := List.forall_mem_cons.mp hi
    rw [itemsHoldIn, itemsHoldIn, v.holdsIn_eq_of_nullsAdded hv h,
      itemsHoldIn_eq_of_nullsAdded items hrest h]

end

end Reading

namespace QueryRules

variable {r : QueryRules} {query : Document} {es : List Expression}

theorem satisfies_eq_of_nullsAdded (hes : r.compile query = .ok es) (hq : query.Settled)
    {d e : Document} (h : d.NullsAdded e) : e.satisfies es = d.satisfies es := by
  rw [Document.satisfies, Document.satisfies, allHold_compile hes, allHold_compile hes]
  exact (levelHoldsIn_eq_of_nullsAdded query hq (.records h)).symm

/-- A null in the place of a missing attribute makes no difference to a query without undefined
values. -/
theorem satisfies_null_inserted (hes : r.compile query = .ok es) (hq : query.Settled)
    {front back : Document} {a : String} (ha : Document.get? (front ++ back) a = none) :
    Document.satisfies (front ++ (a, .null) :: back) es = Document.satisfies (front ++ back) es :=
  satisfies_eq_of_nullsAdded hes hq (Document.nullsAdded_insert ha)

/-- A film that has no year, or null for it, and a nameless actor. -/
theorem satisfies_null_inserted_film :
    let r : QueryRules := ⟨.standard, 5, 2⟩
    let front : Document := [("title", .string "Heat")]
    let back : Document := [("cast", .array [.document []])]
    let query : Document := [("$or", .array [
      .document [("year", .document [("$not", .array [.null, .int32 1979])])],
      .document [("cast", .document [("$all", .document [("name",
        .document [("$ne", .null)])])])]])]
    let es : List Expression := [.combine "" .or [
      [.compare "year" .notIn (.array [.null, .int32 1979])],
      [.quantify "cast" .everyItem [.compare "name" .notEqual .null]]]]
    r.compile query = .ok es ∧ query.Settled ∧ Document.get? (front ++ back) "year" = none ∧
      Document.satisfies (front ++ ("year", .null) :: back) es =
        Document.satisfies (front ++ back) es ∧
      Document.satisfies (front ++ back) es = false := by
  intro r front back query es
  have hes : r.compile query = .ok es := rfl
  have hnull : Value.null.Settled := Value.IsPlain.settled (by simp [Value.IsPlain]) (by simp)
  have hyear : (Value.int32 1979).Settled :=
    Value.IsPlain.settled (by simp [Value.IsPlain]) (by simp)
  have hq : query.Settled := by
    simp [query, Document.Settled, Value.settled_document_iff, Value.settled_array_iff, hnull,
      hyear]
  have hmissing : Document.get? (front ++ back) "year" = none := rfl
  exact ⟨hes, hq, hmissing, satisfies_null_inserted hes hq hmissing, rfl⟩

end QueryRules

end RecordStore
