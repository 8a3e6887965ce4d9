import RecordStore.Proofs.Query.Reading
import RecordStore.Proofs.Value.Substitution

namespace RecordStore

namespace Scope

/-- The second scope is the first with equal values in the place of its own. -/
inductive Equals : Scope → Scope → Prop
  | record {d e : Document} (h : (Value.document d).Equals (.document e)) :
      Equals (.record d) (.record e)
  | value {v w : Option Value} (h : Option.Rel Value.Equals v w) : Equals (.value v) (.value w)

namespace Equals

variable {s t : Scope}

theorem step (h : s.Equals t) (name : String) : (s.step name).Equals (t.step name) := by
  cases h with
  | record hd => exact .value (hd.get? name)
  | value hv =>
    cases hv with
    | none => exact .value .none
    | @some a b hab =>
      cases hab.paired with
      | documents hd => exact .value (hd.get? name)
      | leaf hl =>
        cases a with
        | document d => exact absurd rfl (hl.1 d)
        | _ => exact .value .none
      | doubles | scopes | arrays => exact .value .none

theorem follow (h : s.Equals t) (name : String) : (s.follow name).Equals (t.follow name) := by
  rw [Scope.follow, Scope.follow]
  generalize (Path.ofString name).names = names
  induction names generalizing s t with
  | nil => exact h
  | cons first rest ih => exact ih (h.step first)

theorem descend (h : s.Equals t) (path : String) : (s.descend path).Equals (t.descend path) := by
  by_cases hp : path = ""
  · subst hp
    exact h
  · rw [descend_of_ne s hp, descend_of_ne t hp]
    exact h.follow path

theorem value? (h : s.Equals t) : Option.Rel Value.Equals s.value? t.value? := by
  cases h with
  | record => exact .none
  | value hv => exact hv

theorem items? (h : s.Equals t) :
    Option.Rel (List.Forall₂ Value.Equals) s.items? t.items? := by
  cases h with
  | record => exact .none
  | value hv =>
    cases hv with
    | none => exact .none
    | @some a b hab =>
      cases hab.paired with
      | arrays hitems => exact .some hitems
      | leaf hl =>
        cases a with
        | array items => exact absurd rfl (hl.2.2 items)
        | _ => exact .none
      | doubles | documents | scopes => exact .none

end Equals

end Scope

namespace Operator

theorem any_same_eq {xs ys : List Value} (h : List.Forall₂ Value.Equals xs ys) (v : Value) :
    (xs.any fun x => x.same v) = ys.any fun y => y.same v :=
  any_eq_any_of_forall₂ h fun _ _ hxy => hxy.same_eq v

theorem memberOf_eq_of_equals {a b : Value} (h : a.Equals b) (set : Value) :
    memberOf (some a) set = memberOf (some b) set := by
  cases set with
  | array set =>
    cases h.paired with
    | leaf => rfl
    | doubles | documents | scopes => simp only [memberOf, h.same_eq]
    | arrays hitems => simp only [memberOf, h.same_eq, any_same_eq hitems]
  | _ => exact h.same_eq _

theorem includes_eq_of_equals {a b : Value} (h : a.Equals b) (v : Value) :
    includes.compares (some a) v = includes.compares (some b) v := by
  cases h.paired with
  | arrays hitems => exact any_same_eq hitems v
  | leaf | doubles | documents | scopes => rfl

theorem compares_eq_of_equals {f g : Option Value} (h : Option.Rel Value.Equals f g)
    (op : Operator) (v : Value) : op.compares f v = op.compares g v := by
  cases h with
  | none => rfl
  | @some a b hab =>
    have hequal : equalTo (some a) v = equalTo (some b) v := hab.same_eq v
    have hordering : ordering? (some a) v = ordering? (some b) v := hab.compare?_eq v
    have hmember := memberOf_eq_of_equals hab v
    cases op with
    | includes => exact includes_eq_of_equals hab v
    | startsWith | endsWith =>
      -- a text is equal to itself only
      cases hab.paired <;> rfl
    | _ => simp only [compares, hequal, hordering, hmember]

theorem quantifies_eq_of_equals (op : Operator) {s t : Scope} (h : s.Equals t)
    {sub : Scope → Bool} (hsub : ∀ s t, s.Equals t → sub s = sub t) :
    op.quantifies s sub = op.quantifies t sub := by
  have hitem (x y : Value) (hxy : x.Equals y) :
      sub (.value (some x)) = sub (.value (some y)) := hsub _ _ (.value (.some hxy))
  have hitems := h.items?
  unfold quantifies
  generalize s.items? = xs at hitems ⊢
  generalize t.items? = ys at hitems ⊢
  cases op with
  | not => exact congrArg (! ·) (hsub s t h)
  | anyItem =>
    cases hitems with
    | none => rfl
    | some hxys => exact any_eq_any_of_forall₂ hxys hitem
  | everyItem =>
    cases hitems with
    | none => rfl
    | some hxys => exact all_eq_all_of_forall₂ hxys hitem
  | _ => rfl

end Operator

mutual

theorem Expression.holds_eq_of_equals (e : Expression) {s t : Scope} (h : s.Equals t) :
    e.holds s = e.holds t := by
  cases e with
  | compare path op v => exact Operator.compares_eq_of_equals (h.descend path).value? op v
  | quantify path op body =>
    rw [Expression.holds_quantify, Expression.holds_quantify]
    exact op.quantifies_eq_of_equals (h.descend path) fun _ _ hst => allHold_eq_of_equals body hst
  | combine path op branches =>
    rw [Expression.holds_combine, Expression.holds_combine,
      branchesHold_eq_of_equals branches (h.descend path)]

theorem allHold_eq_of_equals (es : List Expression) {s t : Scope} (h : s.Equals t) :
    allHold s es = allHold t es := by
  cases es with
  | nil => rfl
  | cons e es => rw [allHold, allHold, e.holds_eq_of_equals h, allHold_eq_of_equals es h]

theorem branchesHold_eq_of_equals (branches : List (List Expression)) {s t : Scope}
    (h : s.Equals t) :
    (branches.map fun es => allHold s es) = branches.map fun es => allHold t es := by
  cases branches with
  | nil => rfl
  | cons es branches =>
    rw [List.map_cons, List.map_cons, allHold_eq_of_equals es h,
      branchesHold_eq_of_equals branches h]

end

namespace Document

/-- Two strictly equal records satisfy the same conditions, whether these come from a query or were
put together otherwise. -/
theorem satisfies_eq_of_equal {d e : Document} (hd : (Value.document d).NamesOnce)
    (he : (Value.document e).NamesOnce) (h : d.equal e = true) (es : List Expression) :
    d.satisfies es = e.satisfies es :=
  allHold_eq_of_equals es (.record ⟨hd, he, h⟩)

/-- Other orders of attributes and zeros of the other sign, also in a set that is looked for among
the items, and a condition whose operator does not go with what it carries. -/
theorem satisfies_eq_of_equal_film :
    let d : Document := [("year", .int32 1979),
      ("cast", .array [.document [("name", .string "Ann"), ("born", .double ⟨0⟩)]])]
    let e : Document := [("cast", .array [
      .document [("born", .double ⟨0x8000000000000000⟩), ("name", .string "Ann")]]),
      ("year", .int32 1979)]
    let es : List Expression := [
      .compare "cast" .isIn (.array [.document [("name", .string "Ann"), ("born", .double ⟨0⟩)]]),
      .quantify "cast" .everyItem [.compare "born" .greaterThanOrEqual (.int32 0)],
      .combine "" .nor [[.quantify "cast" .equal []]]]
    (Value.document d).NamesOnce ∧ (Value.document e).NamesOnce ∧ d.equal e = true ∧
      d.satisfies es = e.satisfies es ∧ d.satisfies es = true := by
  intro d e es
  have hd : (Value.document d).NamesOnce := by decide
  have he : (Value.document e).NamesOnce := by decide
  have h : d.equal e = true := by decide
  exact ⟨hd, he, h, satisfies_eq_of_equal hd he h es, by decide⟩

end Document

end RecordStore
