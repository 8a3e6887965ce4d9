import RecordStore.Proofs.Value.Comparison
import RecordStore.Proofs.Value.Equality

namespace RecordStore

namespace Quantity

variable {x y z : Quantity}

theorem compare?_swap (x y : Quantity) : y.compare? x = (x.compare? y).map Ordering.swap := by
  cases x with
  | integer m =>
    cases y with
    | integer n => exact congrArg some (Int.compare_swap m n).symm
    | real e => exact Double.compare?_swap _ _
  | real d => cases y <;> exact Double.compare?_swap _ _

theorem compare?_self (h : x.toDouble.isNaN = false) : x.compare? x = some .eq := by
  cases x with
  | integer m => exact congrArg some (Int.compare_eq_eq.mpr rfl)
  | real d => exact beq_iff_eq.mp (Double.same_self h)

theorem same_toDouble (h : x.compare? y = some .eq) : x.toDouble.same y.toDouble = true := by
  cases x with
  | integer m =>
    cases y with
    | integer n =>
      obtain rfl := Int.compare_eq_eq.mp (Option.some.inj h)
      exact Double.same_self (Double.isNaN_ofInt m)
    | real e => exact beq_iff_eq.mpr h
  | real d => cases y <;> exact beq_iff_eq.mpr h

/-- Equality of numbers passes on but for two integers around a double that both round to. -/
theorem compare?_trans_or (hxy : x.compare? y = some .eq) (hyz : y.compare? z = some .eq) :
    x.compare? z = some .eq ∨
      ∃ m n, x = integer m ∧ y = real (.ofInt n) ∧ z = integer n ∧ m ≠ n ∧
        Double.ofInt m = Double.ofInt n := by
  have hsame : x.toDouble.same z.toDouble = true :=
    Double.same_trans (same_toDouble hxy) (same_toDouble hyz)
  cases x with
  | real d => cases z <;> exact .inl (beq_iff_eq.mp hsame)
  | integer m =>
    cases z with
    | real e => exact .inl (beq_iff_eq.mp hsame)
    | integer n =>
      by_cases hne : m = n
      · exact .inl (congrArg some (Int.compare_eq_eq.mpr hne))
      · have hkeys : (Double.ofInt m).key = (Double.ofInt n).key := (Double.same_iff.mp hsame).2.2
        obtain ⟨heq, hzero⟩ := Double.ofInt_eq_of_key hkeys hne
        cases y with
        | integer k =>
          have hmk : m = k := Int.compare_eq_eq.mp (Option.some.inj hxy)
          have hkn : k = n := Int.compare_eq_eq.mp (Option.some.inj hyz)
          exact absurd (hmk.trans hkn) hne
        | real d =>
          have hkey : d.key = (Double.ofInt n).key := (Double.same_iff.mp (same_toDouble hyz)).2.2
          have hd : d = Double.ofInt n := Double.eq_of_key_eq hkey fun h => hzero h.2.1
          exact .inr ⟨m, n, rfl, congrArg real hd, rfl, hne, heq⟩

end Quantity

namespace Value

theorem rank_eq_of_equal {a b : Value} (h : a.equal b = true) : a.rank = b.rank := by
  cases a with
  | document d =>
    obtain ⟨e, rfl, -⟩ := equal_document_iff.mp h
    rfl
  | scopedCode source scope =>
    obtain ⟨e, rfl, -⟩ := equal_scopedCode_iff.mp h
    rfl
  | array items =>
    obtain ⟨others, rfl, -⟩ := equal_array_iff.mp h
    rfl
  | _ =>
    rw [equal_of_isLeaf (by simp [IsLeaf])] at h
    obtain rfl | ⟨d, e, hd, rfl, -⟩ := eq_or_double_of_scalarEqual h
    · rfl
    · rw [hd]
      rfl

theorem same_iff {a b : Value} :
    a.same b = true ↔
      (∃ x y, a.quantity? = some x ∧ b.quantity? = some y ∧ x.compare? y = some .eq) ∨
        a.quantity? = none ∧ b.quantity? = none ∧ a.equal b = true := by
  -- a number is strictly equal to numbers only
  have hkinds (h : a.equal b = true) : a.quantity?.isSome = b.quantity?.isSome := by
    rw [Bool.eq_iff_iff, quantity?_isSome_iff, quantity?_isSome_iff, rank_eq_of_equal h]
  unfold same
  cases ha : a.quantity? with
  | none =>
    cases hb : b.quantity? with
    | none => simp
    | some y => simpa [ha, hb] using hkinds
  | some x =>
    cases hb : b.quantity? with
    | none => simpa [ha, hb] using hkinds
    | some y => simp

theorem toDouble_of_quantity? {v : Value} {x : Quantity} (h : v.quantity? = some x)
    (hn : v.isNaN = false) : x.toDouble.isNaN = false := by
  cases v with
  | int32 n | int64 n =>
    cases h
    exact Double.isNaN_ofInt _
  | double d =>
    cases h
    exact hn
  | decimal d =>
    cases h
    refine Decimal.isNaN_toDouble fun negative signaling hd => ?_
    subst hd
    cases hn
  | _ => cases h

theorem same_self {v : Value} (hv : v.NamesOnce) (hn : v.FreeOfNaN) : v.same v = true := by
  rw [same_iff]
  cases hq : v.quantity? with
  | none => exact .inr ⟨rfl, rfl, equal_self hv hn⟩
  | some x =>
    have hx : x.toDouble.isNaN = false := toDouble_of_quantity? hq hn.isNaN_eq_false
    exact .inl ⟨x, x, rfl, rfl, Quantity.compare?_self hx⟩

theorem same_symm {a b : Value} (ha : a.NamesOnce) (hb : b.NamesOnce) (h : a.same b = true) :
    b.same a = true := by
  obtain ⟨x, y, hx, hy, hxy⟩ | ⟨hx, hy, hequal⟩ := same_iff.mp h
  · refine same_iff.mpr (.inl ⟨y, x, hy, hx, ?_⟩)
    rw [Quantity.compare?_swap, hxy]
    rfl
  · exact same_iff.mpr (.inr ⟨hy, hx, equal_symm ha hb hequal⟩)

/-- Two different integers with the double between them that both round to. -/
def Merged (a b c : Value) : Prop :=
  ∃ m n : Int, a.quantity? = some (.integer m) ∧ b.quantity? = some (.real (.ofInt n)) ∧
    c.quantity? = some (.integer n) ∧ m ≠ n ∧ Double.ofInt m = Double.ofInt n

theorem Merged.same {a b c : Value} (h : Merged a b c) :
    a.same b = true ∧ b.same c = true ∧ ¬ a.same c = true := by
  obtain ⟨m, n, ha, hb, hc, hne, he⟩ := h
  have hsame : (Double.ofInt n).compare? (.ofInt n) = some .eq :=
    beq_iff_eq.mp (Double.same_self (Double.isNaN_ofInt n))
  have hmn : (Double.ofInt m).compare? (.ofInt n) = some .eq := by rw [he, hsame]
  refine ⟨same_iff.mpr (.inl ⟨_, _, ha, hb, hmn⟩), same_iff.mpr (.inl ⟨_, _, hb, hc, hsame⟩), ?_⟩
  rw [same_iff, ha, hc]
  rintro (⟨x, z, hx, hz, hxz⟩ | ⟨hx, -⟩)
  · cases hx
    cases hz
    exact hne (Int.compare_eq_eq.mp (Option.some.inj hxz))
  · cases hx

theorem same_trans_or {a b c : Value} (hab : a.same b = true) (hbc : b.same c = true) :
    a.same c = true ∨ Merged a b c := by
  obtain ⟨x, y, hx, hy, hxy⟩ | ⟨hx, hy, hequal⟩ := same_iff.mp hab
  · obtain ⟨y', z, hy', hz, hyz⟩ | ⟨hy', -⟩ := same_iff.mp hbc
    · obtain rfl : y = y' := Option.some.inj (hy.symm.trans hy')
      obtain hxz | ⟨m, n, rfl, rfl, rfl, hne, he⟩ := Quantity.compare?_trans_or hxy hyz
      · exact .inl (same_iff.mpr (.inl ⟨x, z, hx, hz, hxz⟩))
      · exact .inr ⟨m, n, hx, hy, hz, hne, he⟩
    · rw [hy] at hy'
      cases hy'
  · obtain ⟨y, z, hy', -⟩ | ⟨-, hz, hequal'⟩ := same_iff.mp hbc
    · rw [hy] at hy'
      cases hy'
    · exact .inl (same_iff.mpr (.inr ⟨hx, hz, equal_trans hequal hequal'⟩))

/-- Equality is an equivalence on values without a NaN but for merged integers: every value equals
itself, equality goes both ways, and it passes on at three values unless the middle one merges the
others. -/
theorem same_trans_iff_not_merged (a b c : Value) (ha : a.NamesOnce) (hb : b.NamesOnce) :
    (a.FreeOfNaN → a.same a = true) ∧ a.same b = b.same a ∧
      ((a.same b = true → b.same c = true → a.same c = true) ↔ ¬ Merged a b c) := by
  refine ⟨same_self ha, ?_, ?_⟩
  · rw [Bool.eq_iff_iff]
    exact ⟨same_symm ha hb, same_symm hb ha⟩
  · constructor
    · intro h hmerged
      obtain ⟨hab, hbc, hac⟩ := hmerged.same
      exact hac (h hab hbc)
    · intro h hab hbc
      exact (same_trans_or hab hbc).resolve_right h

/-- Attributes in any order, at any depth, and zeros of either sign. -/
theorem same_trans_iff_not_merged_film :
    let a : Value := .document [("year", .int32 1979),
      ("cut", .scopedCode "f" [("x", .double ⟨0⟩), ("y", .array [.null])])]
    let b : Value := .document [
      ("cut", .scopedCode "f" [("y", .array [.null]), ("x", .double ⟨0x8000000000000000⟩)]),
      ("year", .int32 1979)]
    a.NamesOnce ∧ b.NamesOnce ∧ a.FreeOfNaN ∧ a.same a = true ∧ a.same b = b.same a ∧
      (a.same b = true → b.same a = true → a.same a = true) ∧ a.same b = true := by
  intro a b
  have ha : a.NamesOnce := by decide
  have hb : b.NamesOnce := by decide
  have hn : a.FreeOfNaN := by decide
  obtain ⟨hself, hsymm, htrans⟩ := same_trans_iff_not_merged a b a ha hb
  refine ⟨ha, hb, hn, hself hn, hsymm, htrans.mpr ?_, by decide⟩
  rintro ⟨m, n, hm, -⟩
  cases hm

/-- The integers at and after 2 ^ 53 equal the double 2 ^ 53, and differ. -/
theorem same_not_transitive :
    ¬ ∀ a b c : Value, a.NamesOnce → b.NamesOnce → c.NamesOnce →
      a.FreeOfNaN → b.FreeOfNaN → c.FreeOfNaN →
      a.same b = true → b.same c = true → a.same c = true := by
  intro h
  have hsame := h (.int64 9007199254740993) (.double ⟨0x4340000000000000⟩)
    (.int64 9007199254740992) (by decide) (by decide) (by decide) (by decide) (by decide)
    (by decide) (by decide) (by decide)
  exact absurd hsame (by decide)

end Value

end RecordStore
