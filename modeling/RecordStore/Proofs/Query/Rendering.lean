import RecordStore.Proofs.Query.Compiled
import RecordStore.Proofs.Query.Levels

namespace RecordStore

namespace Vocabulary

/-- The vocabularies that come from the standard one by extensions and aliases in any order. -/
inductive Built : Vocabulary → Prop
  | start : Built standard
  | extension {w : Vocabulary} (h : Built w) (token : String) : Built (w.withExtension token)
  | spelling {w u : Vocabulary} {spelling target : String} (h : Built w)
      (hu : w.withAlias? spelling target = some u) : Built u

end Vocabulary

namespace Operator

/-- An operator whose token stands for no other one: an extension is spelled like nothing that the
standard vocabulary knows. -/
def Distinct (op : Operator) : Prop :=
  ∀ token, op = .extension token → Vocabulary.standard.resolve? token = none

theorem mem_builtins_or (op : Operator) : op ∈ builtins ∨ ∃ token, op = .extension token := by
  cases op <;> simp [builtins]

theorem distinct_of_mem_builtins {op : Operator} (h : op ∈ builtins) : op.Distinct := by
  rintro token rfl
  simp [builtins] at h

theorem token_inj {op other : Operator} (h : op.Distinct) (h' : other.Distinct)
    (ht : op.token = other.token) : op = other := by
  obtain hb | ⟨token, rfl⟩ := op.mem_builtins_or <;>
    obtain hb' | ⟨token', rfl⟩ := other.mem_builtins_or
  · have hop := Vocabulary.resolve?_standard_token op hb
    rw [ht, Vocabulary.resolve?_standard_token other hb'] at hop
    exact (Option.some.inj hop).symm
  · have hop := Vocabulary.resolve?_standard_token op hb
    rw [ht] at hop
    exact nomatch hop.symm.trans (h' token' rfl)
  · have hop := Vocabulary.resolve?_standard_token other hb'
    rw [← ht] at hop
    exact nomatch hop.symm.trans (h token rfl)
  · exact congrArg Operator.extension ht

theorem Distinct.soften {op : Operator} (h : op.Distinct) (v : Value) : (op.soften v).Distinct := by
  cases op with
  | not | isIn | notIn => cases v <;> exact fun _ h => nomatch h
  | _ => exact h

end Operator

/-- What a vocabulary knows from the start it never forgets, so that no extension takes a built-in
spelling. -/
theorem Vocabulary.Built.resolves {w : Vocabulary} (h : w.Built) :
    (∀ token, w.resolve? token = none → standard.resolve? token = none) ∧
      ∀ token op, w.resolve? token = some op → op.Distinct := by
  induction h with
  | start =>
    refine ⟨fun _ h => h, fun token op hop => Operator.distinct_of_mem_builtins ?_⟩
    have hspellings : ∀ e ∈ standard.spellings, e.2 ∈ Operator.builtins := by decide
    obtain ⟨front, back, hlist, -⟩ := List.lookup_eq_some_iff.mp hop
    exact hspellings (token, op) (hlist ▸ List.mem_append_right front List.mem_cons_self)
  | @extension w _ token ih =>
    obtain ⟨hkept, hdistinct⟩ := ih
    simp only [resolve?_withExtension]
    refine ⟨fun other hother => ?_, fun other op hop => ?_⟩
    · split at hother
      · exact nomatch hother
      · exact hkept other hother
    · split at hop
      case isTrue hnew =>
        obtain rfl := Option.some.inj hop
        rintro _ ⟨⟩
        exact hkept token hnew.2
      case isFalse => exact hdistinct other op hop
  | @spelling w u spelling target _ hu ih =>
    obtain ⟨hkept, hdistinct⟩ := ih
    obtain ⟨meant, hmeant, -⟩ := Option.map_eq_some_iff.mp hu
    simp only [resolve?_withAlias? hu]
    refine ⟨fun other hother => ?_, fun other op hop => ?_⟩
    · split at hother
      · exact nomatch hmeant.symm.trans hother
      · exact hkept other hother
    · split at hop
      · exact hdistinct target op hop
      · exact hdistinct other op hop

namespace QueryRules

variable {r : QueryRules}

theorem distinct_of_normalize? (hw : r.vocabulary.Built) {token : String} {v : Value}
    {op : Operator} (hop : r.vocabulary.normalize? token v = some op) : op.Distinct := by
  obtain ⟨written, hwritten, rfl⟩ := Option.map_eq_some_iff.mp hop
  exact (hw.resolves.2 token written hwritten).soften v

mutual

theorem distinct_of_lowers (hw : r.vocabulary.Built) (v : Value) {depth : Nat} {path : String}
    {es : List Expression} (h : r.Lowers depth path v es) :
    EveryWithin (·.operator.Distinct) es := by
  cases v with
  | document level => exact distinct_of_entriesLower hw level (lowers_document.mp h).2.2
  | array items =>
    obtain ⟨-, rfl⟩ := lowers_array.mp h
    have hop : Operator.isIn.Distinct := Operator.distinct_of_mem_builtins (by decide)
    exact everyWithin_compare.mpr hop
  | _ =>
    obtain rfl := (lowers_plain (by simp [Value.IsPlain])).mp h
    have hop : Operator.equal.Distinct := Operator.distinct_of_mem_builtins (by decide)
    exact everyWithin_compare.mpr hop

theorem distinct_of_entriesLower (hw : r.vocabulary.Built) (entries : List (String × Value))
    {depth : Nat} {path : String} {es : List Expression}
    (h : r.EntriesLower depth path entries es) : EveryWithin (·.operator.Distinct) es := by
  cases entries with
  | nil =>
    cases h with
    | nil => exact everyWithin_nil
  | cons e entries =>
    cases h with
    | cons he h =>
      refine everyWithin_append.mpr ⟨?_, distinct_of_entriesLower hw entries h⟩
      cases he with
      | @field name v _ hk hne hv => exact distinct_of_lowers hw v hv
      | compare hk hop ha hv hs => exact everyWithin_compare.mpr (distinct_of_normalize? hw hop)
      | @quantify token v _ _ hk hop ha hv =>
        exact everyWithin_quantify.mpr
          ⟨distinct_of_normalize? hw hop, distinct_of_lowers hw v hv⟩
      | @combine token items _ _ hk hop ha hitems =>
        exact everyWithin_combine.mpr
          ⟨distinct_of_normalize? hw hop, distinct_of_itemsLower hw items hitems⟩

theorem distinct_of_itemsLower (hw : r.vocabulary.Built) (items : List Value) {depth : Nat}
    {branches : List (List Expression)} (h : List.Forall₂ (r.Lowers depth "") items branches) :
    ∀ branch ∈ branches, EveryWithin (·.operator.Distinct) branch := by
  cases items with
  | nil =>
    cases h with
    | nil => exact List.forall_mem_nil _
  | cons v items =>
    cases h with
    | cons hv h =>
      exact List.forall_mem_cons.mpr
        ⟨distinct_of_lowers hw v hv, distinct_of_itemsLower hw items h⟩

end

end QueryRules

namespace Expression

/-- A condition that can be read off the value which shows it. -/
structure Legible (e : Expression) : Prop where
  distinct : e.operator.Distinct
  fits : ∃ maxInSet, e.Fits maxInSet

def operand : Expression → Value
  | compare _ _ v => v
  | quantify _ _ body => .array (expressionValues body)
  | combine _ _ branches => .array (branchValues branches)

theorem toValue_eq (e : Expression) :
    e.toValue = .array [.string e.path, .string e.operator.token, e.operand] := by
  cases e <;> rfl

theorem parts_of_toValue_eq {e f : Expression} (he : e.Legible) (hf : f.Legible)
    (h : e.toValue = f.toValue) :
    e.path = f.path ∧ e.operator = f.operator ∧ e.operand = f.operand := by
  simp only [toValue_eq, Value.array.injEq, List.cons.injEq, Value.string.injEq, and_true] at h
  exact ⟨h.1, Operator.token_inj he.distinct hf.distinct h.2.1, h.2.2⟩

end Expression

open Expression

theorem legible_singleton {e : Expression} (h : EveryWithin Legible [e]) : e.Legible :=
  h e (.self (List.mem_singleton.mpr rfl))

mutual

/-- The operator settles which kind of condition was shown, after which the parts are read. -/
theorem Expression.eq_of_toValue_eq (e f : Expression) (he : EveryWithin Legible [e])
    (hf : EveryWithin Legible [f]) (h : e.toValue = f.toValue) : e = f := by
  have hfits := legible_singleton hf
  obtain ⟨hpath, hop, hoperand⟩ := parts_of_toValue_eq (legible_singleton he) hfits h
  obtain ⟨n, hn⟩ := hfits.fits
  obtain ⟨m, hm⟩ := (legible_singleton he).fits
  cases e with
  | compare path op v =>
    obtain ⟨path', op', w, rfl⟩ := hn.compare_iff.mpr (hop ▸ hm.compare_iff.mp ⟨_, _, _, rfl⟩)
    obtain rfl : path = path' := hpath
    obtain rfl : op = op' := hop
    obtain rfl : v = w := hoperand
    rfl
  | quantify path op body =>
    obtain ⟨path', op', body', rfl⟩ :=
      hn.quantify_iff.mpr (hop ▸ hm.quantify_iff.mp ⟨_, _, _, rfl⟩)
    obtain rfl : path = path' := hpath
    obtain rfl : op = op' := hop
    rw [eq_of_expressionValues_eq body body' (everyWithin_quantify.mp he).2
      (everyWithin_quantify.mp hf).2 (Value.array.inj hoperand)]
  | combine path op branches =>
    obtain ⟨path', op', branches', rfl⟩ :=
      hn.combine_iff.mpr (hop ▸ hm.combine_iff.mp ⟨_, _, _, rfl⟩)
    obtain rfl : path = path' := hpath
    obtain rfl : op = op' := hop
    rw [eq_of_branchValues_eq branches branches' (everyWithin_combine.mp he).2
      (everyWithin_combine.mp hf).2 (Value.array.inj hoperand)]

theorem eq_of_expressionValues_eq (es fs : List Expression) (he : EveryWithin Legible es)
    (hf : EveryWithin Legible fs) (h : expressionValues es = expressionValues fs) : es = fs := by
  cases es with
  | nil =>
    cases fs with
    | nil => rfl
    | cons f fs => exact nomatch h
  | cons e es =>
    cases fs with
    | nil => exact nomatch h
    | cons f fs =>
      obtain ⟨he, hes⟩ := everyWithin_cons.mp he
      obtain ⟨hf, hfs⟩ := everyWithin_cons.mp hf
      obtain ⟨hhead, htail⟩ := List.cons.inj h
      rw [Expression.eq_of_toValue_eq e f he hf hhead,
        eq_of_expressionValues_eq es fs hes hfs htail]

theorem eq_of_branchValues_eq (branches others : List (List Expression))
    (hb : ∀ branch ∈ branches, EveryWithin Legible branch)
    (ho : ∀ branch ∈ others, EveryWithin Legible branch)
    (h : branchValues branches = branchValues others) : branches = others := by
  cases branches with
  | nil =>
    cases others with
    | nil => rfl
    | cons fs others => exact nomatch h
  | cons es branches =>
    cases others with
    | nil => exact nomatch h
    | cons fs others =>
      obtain ⟨hes, hb⟩ := List.forall_mem_cons.mp hb
      obtain ⟨hfs, ho⟩ := List.forall_mem_cons.mp ho
      obtain ⟨hhead, htail⟩ := List.cons.inj h
      rw [eq_of_expressionValues_eq es fs hes hfs (Value.array.inj hhead),
        eq_of_branchValues_eq branches others hb ho htail]

end

namespace QueryRules

theorem legible_of_compile {r : QueryRules} (hw : r.vocabulary.Built) {query : Document}
    {es : List Expression} (h : r.compile query = .ok es) : EveryWithin Legible es := by
  have hdistinct := distinct_of_entriesLower hw query (compile_eq_ok_iff.mp h).2
  exact fun e he => ⟨hdistinct e he, r.maxInSet, allFit_compile h e he⟩

/-- Two queries, each compiled by rules of its own, are shown by the same value only if they are
compiled to the same conditions. -/
theorem compiled_eq_of_shown_eq {r s : QueryRules} (hr : r.vocabulary.Built)
    (hs : s.vocabulary.Built) {query other : Document} {es fs : List Expression}
    (hes : r.compile query = .ok es) (hfs : s.compile other = .ok fs)
    (h : Value.array (expressionValues es) = Value.array (expressionValues fs)) : es = fs :=
  eq_of_expressionValues_eq es fs (legible_of_compile hr hes) (legible_of_compile hs hfs)
    (Value.array.inj h)

/-- An extension of one vocabulary, in an alternative below a quantifier, and its alias in another
one. -/
theorem compiled_eq_of_shown_eq_near :
    let near : Vocabulary := Vocabulary.standard.withExtension "$near"
    let around : Vocabulary := ⟨("$around", .extension "$near") :: near.spellings, near.extensions⟩
    let place : Value := .array [.int32 1, .int32 2]
    let query : Document := [("cast", .document [("$some", .document [("$or", .array
      [.document [("$near", place)], .array []])])])]
    let other : Document := [("cast", .document [("$any", .document [("$or", .array
      [.document [("$around", place)], .document [("$in", .array [])]])])])]
    ∃ es fs, near.Built ∧ around.Built ∧ QueryRules.compile ⟨near, 5, 2⟩ query = .ok es ∧
      QueryRules.compile ⟨around, 4, 9⟩ other = .ok fs ∧
      Value.array (expressionValues es) = Value.array (expressionValues fs) ∧ es = fs := by
  intro near around place query other
  have hnear : near.Built := .extension .start "$near"
  have halias : near.withAlias? "$around" "$near" = some around := rfl
  have haround : around.Built := .spelling hnear halias
  have hes : QueryRules.compile ⟨near, 5, 2⟩ query = .ok [.quantify "cast" .anyItem
      [.combine "" .or [[.compare "" (.extension "$near") place],
        [.compare "" .isIn (.array [])]]]] := by
    simp only [near, place, query]
    rfl
  have hfs : QueryRules.compile ⟨around, 4, 9⟩ other = .ok [.quantify "cast" .anyItem
      [.combine "" .or [[.compare "" (.extension "$near") place],
        [.compare "" .isIn (.array [])]]]] := by
    simp only [around, near, place, other]
    rfl
  exact ⟨_, _, hnear, haround, hes, hfs, rfl, compiled_eq_of_shown_eq hnear haround hes hfs rfl⟩

end QueryRules

end RecordStore
