import RecordStore.Proofs.Value.Comparison
import RecordStore.Sort

namespace RecordStore

/-- The kinds of value of which none clashes with any other. -/
inductive Value.Sortable : Value → Prop
  | null : Sortable .null
  | boolean (b : Bool) : Sortable (.boolean b)
  | int32 (n : Int32) : Sortable (.int32 n)
  | int64 (n : Int64) : Sortable (.int64 n)
  | string (s : String) : Sortable (.string s)
  | dateTime (millis : Int64) : Sortable (.dateTime millis)

instance : DecidablePred Value.Sortable
  | .null => isTrue .null
  | .boolean b => isTrue (.boolean b)
  | .int32 n => isTrue (.int32 n)
  | .int64 n => isTrue (.int64 n)
  | .string s => isTrue (.string s)
  | .dateTime millis => isTrue (.dateTime millis)
  | .undefined | .minKey | .maxKey | .double _ | .decimal _ | .symbol _ | .code _ | .scopedCode _ _
  | .document _ | .array _ | .binary _ _ | .objectId _ | .timestamp _ _ | .regex _ _
  | .dbPointer _ _ => isFalse fun h => nomatch h

theorem Value.Sortable.not_clash {a b c : Value} (hb : b.Sortable) : ¬ Clash a b c := by
  intro h
  cases h with
  | rounding _ hreal => cases hb <;> cases hreal
  | symbol => cases hb

inductive Value.Below : Option Value → Option Value → Prop
  | absent (v : Value) : Below none (some v)
  | smaller {v w : Value} (h : v.compare w = .lt) : Below (some v) (some w)

namespace SortKey

variable {k : SortKey} {keys : List SortKey} {a b c : Document}

theorem compareFields_swap (v w : Option Value) :
    compareFields w v = (compareFields v w).swap := by
  cases v with
  | none => cases w <;> rfl
  | some v =>
    cases w with
    | none => rfl
    | some w => exact Value.compare_swap v w

theorem compareFields_trans {u v w : Option Value} (hv : ∀ x, v = some x → x.Sortable)
    (huv : compareFields u v ≠ .gt) (hvw : compareFields v w ≠ .gt) :
    compareFields u w ≠ .gt := by
  cases u with
  | none => cases w <;> exact fun h => nomatch h
  | some u =>
    cases v with
    | none => exact absurd rfl huv
    | some v =>
      cases w with
      | none => exact absurd rfl hvw
      | some w => exact fun hgt => (hv v rfl).not_clash (Value.clash_of_compare huv hvw hgt)

theorem compareFields_eq_lt_iff {v w : Option Value} :
    compareFields v w = .lt ↔ Value.Below v w := by
  constructor
  · intro h
    cases v with
    | none =>
      cases w with
      | none => cases h
      | some w => exact .absent w
    | some v =>
      cases w with
      | none => cases h
      | some w => exact .smaller h
  · rintro (⟨v⟩ | ⟨h⟩)
    · rfl
    · exact h

def held (k : SortKey) (d : Document) : Option Value := d.getPath (Path.ofString k.field)

def Leads (k : SortKey) (a b : Document) : Prop :=
  match k.direction with
  | .ascending => Value.Below (k.held a) (k.held b)
  | .descending => Value.Below (k.held b) (k.held a)

/-- The first key that tells the records apart puts the first one in front. -/
inductive Precedes : List SortKey → Document → Document → Prop
  | here {k : SortKey} {keys : List SortKey} {a b : Document} (h : k.Leads a b) :
      Precedes (k :: keys) a b
  | later {k : SortKey} {keys : List SortKey} {a b : Document} (h : ¬ k.Leads a b)
      (h' : ¬ k.Leads b a) (hrest : Precedes keys a b) : Precedes (k :: keys) a b

theorem compare_of_ascending (h : k.direction = .ascending) (a b : Document) :
    k.compare a b = compareFields (k.held a) (k.held b) := by
  rw [compare, h]
  rfl

theorem compare_of_descending (h : k.direction = .descending) (a b : Document) :
    k.compare a b = compareFields (k.held b) (k.held a) := by
  rw [compareFields_swap, compare, h]
  rfl

theorem compare_swap (k : SortKey) (a b : Document) : k.compare b a = (k.compare a b).swap := by
  cases h : k.direction with
  | ascending =>
    rw [compare_of_ascending h, compare_of_ascending h]
    exact compareFields_swap _ _
  | descending =>
    rw [compare_of_descending h, compare_of_descending h]
    exact compareFields_swap _ _

theorem compareAll_swap (keys : List SortKey) (a b : Document) :
    compareAll keys b a = (compareAll keys a b).swap := by
  induction keys with
  | nil => rfl
  | cons k keys ih => rw [compareAll, compareAll, compare_swap k a b, ih, Ordering.swap_then]

theorem compare_eq_lt_iff : k.compare a b = .lt ↔ k.Leads a b := by
  cases h : k.direction with
  | ascending =>
    rw [compare_of_ascending h, Leads, h]
    exact compareFields_eq_lt_iff
  | descending =>
    rw [compare_of_descending h, Leads, h]
    exact compareFields_eq_lt_iff

theorem compare_eq_eq_iff : k.compare a b = .eq ↔ ¬ k.Leads a b ∧ ¬ k.Leads b a := by
  rw [← compare_eq_lt_iff, ← compare_eq_lt_iff, compare_swap k a b]
  cases k.compare a b <;> decide

theorem compareAll_eq_lt_iff : compareAll keys a b = .lt ↔ Precedes keys a b := by
  induction keys with
  | nil => exact ⟨fun h => (nomatch h), fun h => (nomatch h)⟩
  | cons k keys ih =>
    rw [compareAll, Ordering.then_eq_lt, compare_eq_lt_iff, compare_eq_eq_iff, ih]
    constructor
    · rintro (h | ⟨⟨h, h'⟩, hrest⟩)
      · exact .here h
      · exact .later h h' hrest
    · rintro (⟨h⟩ | ⟨h, h', hrest⟩)
      · exact .inl h
      · exact .inr ⟨⟨h, h'⟩, hrest⟩

theorem compareAll_eq_gt_iff : compareAll keys a b = .gt ↔ Precedes keys b a := by
  rw [← compareAll_eq_lt_iff, compareAll_swap keys a b]
  cases compareAll keys a b <;> decide

def Suits (k : SortKey) (d : Document) : Prop := ∀ v ∈ k.held d, v.Sortable

instance (k : SortKey) (d : Document) : Decidable (k.Suits d) :=
  inferInstanceAs (Decidable (∀ v ∈ k.held d, v.Sortable))

theorem compare_trans (hb : k.Suits b) (hab : k.compare a b ≠ .gt) (hbc : k.compare b c ≠ .gt) :
    k.compare a c ≠ .gt := by
  cases h : k.direction with
  | ascending =>
    rw [compare_of_ascending h] at hab hbc ⊢
    exact compareFields_trans hb hab hbc
  | descending =>
    rw [compare_of_descending h] at hab hbc ⊢
    exact compareFields_trans hb hbc hab

theorem transCmp_compare {P : Document → Prop} (h : ∀ d, P d → k.Suits d) :
    Std.TransCmp fun a b : { d // P d } => k.compare a.1 b.1 where
  eq_swap := compare_swap k _ _
  isLE_trans {_ b _} hab hbc := Ordering.isLE_iff_ne_gt.mpr
    (compare_trans (h b.1 b.2) (Ordering.isLE_iff_ne_gt.mp hab) (Ordering.isLE_iff_ne_gt.mp hbc))

/-- One key after the other, the order of suitable records is a total preorder. -/
theorem transCmp_compareAll {P : Document → Prop} (h : ∀ k ∈ keys, ∀ d, P d → k.Suits d) :
    Std.TransCmp fun a b : { d // P d } => compareAll keys a.1 b.1 := by
  induction keys with
  | nil => exact { eq_swap := rfl, isLE_trans := fun _ _ => rfl }
  | cons k keys ih =>
    obtain ⟨hk, hkeys⟩ := List.forall_mem_cons.mp h
    have hfirst := transCmp_compare hk
    have hrest := ih hkeys
    exact inferInstanceAs (Std.TransCmp (compareLex (fun a b : { d // P d } => k.compare a.1 b.1)
      fun a b => compareAll keys a.1 b.1))

end SortKey

end RecordStore
