import RecordStore.Proofs.Number.Comparison
import RecordStore.Proofs.Value.Comparison
import RecordStore.Query.Match

namespace RecordStore

theorem Quantity.totalCompare_eq_iff {x y : Quantity} {o : Ordering} (h : x.compare? y = some o) :
    x.totalCompare y = o ↔ ¬ x.toDouble.OppositeZeros y.toDouble := by
  have hreal (hxy : x.toDouble.compare? y.toDouble = some o) :
      x.toDouble.totalCompare y.toDouble = o ↔ ¬ x.toDouble.OppositeZeros y.toDouble := by
    obtain ⟨-, -, rfl⟩ := Double.compare?_eq_some_iff.mp hxy
    exact Double.totalCompare_eq_iff _ _
  cases x with
  | real d => cases y <;> exact hreal h
  | integer m =>
    cases y with
    | real e => exact hreal h
    | integer n =>
      -- no integer rounds to the negative zero
      refine iff_of_true (Option.some.inj h) fun ⟨hm, hn, hs⟩ => hs ?_
      have hm : m = 0 := Double.eq_zero_of_magnitude_ofInt hm
      have hn : n = 0 := Double.eq_zero_of_magnitude_ofInt hn
      rw [hm, hn]

namespace Value

theorem comparable_of_compare? {a b : Value} {o : Ordering} (h : a.compare? b = some o) :
    Comparable a b := by
  unfold compare? at h
  split at h
  · exact .numbers ‹_› ‹_›
  · split at h
    · exact .texts _ _
    · exact .booleans _ _
    · exact .moments _ _
    · cases h

theorem compare?_of_quantity? {a b : Value} {x y : Quantity} (ha : a.quantity? = some x)
    (hb : b.quantity? = some y) : a.compare? b = x.compare? y := by
  simp only [compare?, ha, hb]

theorem same_iff_of_compare? {a b : Value} {o : Ordering} (h : a.compare? b = some o) :
    a.same b = true ↔ o = .eq := by
  cases comparable_of_compare? h with
  | numbers ha hb =>
    rw [compare?_of_quantity? ha hb] at h
    simp [same, ha, hb, h]
  | texts s t =>
    obtain rfl : Ord.compare s t = o := Option.some.inj h
    rw [Std.compare_eq_iff_eq]
    exact beq_iff_eq
  | booleans p q =>
    obtain rfl := Option.some.inj h
    rw [Std.compare_eq_iff_eq]
    exact beq_iff_eq
  | moments s t =>
    obtain rfl := Option.some.inj h
    rw [Std.compare_eq_iff_eq, Int64.toInt_inj]
    exact beq_iff_eq

/-- Two numbers that are read as zeros of opposite sign. -/
def ZerosApart (a b : Value) : Prop :=
  ∃ x y, a.quantity? = some x ∧ b.quantity? = some y ∧ x.toDouble.OppositeZeros y.toDouble

theorem compare_eq_iff_of_compare? {a b : Value} {o : Ordering} (h : a.compare? b = some o) :
    a.compare b = o ↔ ¬ ZerosApart a b := by
  cases comparable_of_compare? h with
  | numbers ha hb =>
    rw [compare?_of_quantity? ha hb] at h
    rw [compare_of_quantity? ha hb, Quantity.totalCompare_eq_iff h]
    simp [ZerosApart, ha, hb]
  | texts | booleans | moments =>
    exact iff_of_true (Option.some.inj h) (by simp [ZerosApart, quantity?])

end Value

namespace Operator

/-- Of two values that a range condition can compare, exactly one of the three strict conditions
holds, the weak ones hold where the opposite strict ones do not, and sorting puts the values in the
same order unless they are zeros of opposite sign. -/
theorem compares_ordered {f v : Value} {o : Ordering} (h : f.compare? v = some o) :
    lessThan.compares (some f) v = decide (o = .lt) ∧
      equal.compares (some f) v = decide (o = .eq) ∧
      greaterThan.compares (some f) v = decide (o = .gt) ∧
      greaterThanOrEqual.compares (some f) v = !lessThan.compares (some f) v ∧
      lessThanOrEqual.compares (some f) v = !greaterThan.compares (some f) v ∧
      (f.compare v = o ↔ ¬ f.ZerosApart v) := by
  have hordering : ordering? (some f) v = some o := h
  have hequal : equal.compares (some f) v = decide (o = .eq) := by
    rw [Bool.eq_iff_iff, decide_eq_true_iff]
    exact Value.same_iff_of_compare? h
  refine ⟨?_, hequal, ?_, ?_, ?_, Value.compare_eq_iff_of_compare? h⟩
  all_goals
    simp only [compares, hordering]
    cases o <;> rfl

/-- A negative decimal is below the integer zero for conditions and for sorting. -/
theorem compares_ordered_decimal :
    let f : Value := .decimal (.finite true 5 (-1))
    let v : Value := .int32 0
    f.compare? v = some .lt ∧ lessThan.compares (some f) v = true ∧
      equal.compares (some f) v = false ∧ greaterThan.compares (some f) v = false ∧
      greaterThanOrEqual.compares (some f) v = false ∧
      lessThanOrEqual.compares (some f) v = true ∧ f.compare v = .lt := by
  intro f v
  have h : f.compare? v = some .lt := by decide
  obtain ⟨hlt, heq, hgt, hge, hle, hcompare⟩ := compares_ordered h
  have hapart : ¬ f.ZerosApart v := by
    rintro ⟨x, y, hx, hy, hzeros⟩
    cases hx
    cases hy
    exact absurd hzeros (by decide)
  rw [hlt] at hge
  rw [hgt] at hle
  exact ⟨h, hlt, heq, hgt, hge, hle, hcompare.mpr hapart⟩

/-- The negative zero equals zero, and is sorted in front of it. -/
theorem compare_tells_equal_zeros :
    ¬ ∀ (f v : Value) (o : Ordering), f.compare? v = some o →
      equal.compares (some f) v = true → f.compare v = .eq := by
  intro h
  have heq := h (.double ⟨0x8000000000000000⟩) (.double ⟨0⟩) .eq (by decide) (by decide)
  exact absurd heq (by decide)

end Operator

end RecordStore
