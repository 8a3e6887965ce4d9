import RecordStore.Proofs.Number.Rounding
import RecordStore.Value.Order

namespace RecordStore

namespace Quantity

def key (x : Quantity) : Int := x.toDouble.totalKey

theorem totalCompare_swap (x y : Quantity) : y.totalCompare x = (x.totalCompare y).swap := by
  cases x <;> cases y <;> exact (Int.compare_swap _ _).symm

theorem key_le_of_totalCompare {x y : Quantity} (h : x.totalCompare y ≠ .gt) : x.key ≤ y.key := by
  cases x with
  | integer m =>
    cases y with
    | integer n => exact Double.totalKey_ofInt_mono (Int.compare_ne_gt.mp h)
    | real e => exact Int.compare_ne_gt.mp h
  | real d => cases y <;> exact Int.compare_ne_gt.mp h

theorem eq_of_clash {x y z : Quantity} (hxy : x.totalCompare y ≠ .gt)
    (hyz : y.totalCompare z ≠ .gt) (hxz : x.totalCompare z = .gt) :
    ∃ m n, x = integer m ∧ y = real (.ofInt n) ∧ z = integer n ∧ n < m ∧
      Double.ofInt m = Double.ofInt n := by
  have hle : x.key ≤ y.key := key_le_of_totalCompare hxy
  have hle' : y.key ≤ z.key := key_le_of_totalCompare hyz
  have hnot : ¬ z.key < x.key := by omega
  -- the keys are in order, so that only two integers can compare against them
  cases x with
  | real d => cases z <;> exact absurd (Int.compare_eq_gt.mp hxz) hnot
  | integer m =>
    cases z with
    | real d => exact absurd (Int.compare_eq_gt.mp hxz) hnot
    | integer n =>
      have hlt : n < m := Int.compare_eq_gt.mp hxz
      have hkeys : (integer n).key ≤ (integer m).key :=
        Double.totalKey_ofInt_mono (Int.le_of_lt hlt)
      cases y with
      | integer k =>
        have hmk : m ≤ k := Int.compare_ne_gt.mp hxy
        have hkn : k ≤ n := Int.compare_ne_gt.mp hyz
        omega
      -- rounding keeps the order, which leaves one double for all three
      | real d =>
        have hm : (Double.ofInt m).totalKey = (Double.ofInt n).totalKey :=
          Int.le_antisymm (Int.le_trans hle hle') hkeys
        have hd : d.totalKey = (Double.ofInt n).totalKey :=
          Int.le_antisymm hle' (Int.le_trans hkeys hle)
        refine ⟨m, n, rfl, ?_, rfl, hlt, Double.totalKey_injective hm⟩
        rw [Double.totalKey_injective hd]

end Quantity

namespace Value

theorem compareText_swap (s t : String) : compareText t s = (compareText s t).swap := by
  have h : Ord.compare t s = (Ord.compare s t).swap := Std.OrientedOrd.eq_swap
  exact h

theorem ne_gt_trans {α : Type} [Ord α] [Std.TransOrd α] {x y z : α}
    (h : Ord.compare x y ≠ .gt) (h' : Ord.compare y z ≠ .gt) : Ord.compare x z ≠ .gt := by
  have hxy : (Ord.compare x y).isLE := Ordering.isLE_iff_ne_gt.mpr h
  have hyz : (Ord.compare y z).isLE := Ordering.isLE_iff_ne_gt.mpr h'
  have hxz : (Ord.compare x z).isLE := Std.TransCmp.isLE_trans hxy hyz
  exact Ordering.isLE_iff_ne_gt.mp hxz

theorem compareText_eq_gt_iff {s t : String} : compareText s t = .gt ↔ t < s := by
  have hlt : compareText t s = .lt ↔ t < s := by
    unfold compareText compareOfLessAndEq
    by_cases h : t < s
    · simp [h]
    · by_cases he : t = s <;> simp [h, he]
  rw [← hlt, compareText_swap s t]
  cases compareText s t <;> decide

/-- Values that are compared by what they say. All others are compared by their kinds alone. -/
inductive Comparable : Value → Value → Prop
  | numbers {a b : Value} {x y : Quantity} (ha : a.quantity? = some x) (hb : b.quantity? = some y) :
      Comparable a b
  | texts (s t : String) : Comparable (.string s) (.string t)
  | booleans (p q : Bool) : Comparable (.boolean p) (.boolean q)
  | moments (s t : Int64) : Comparable (.dateTime s) (.dateTime t)

theorem Comparable.symm {a b : Value} (h : Comparable a b) : Comparable b a := by
  cases h with
  | numbers ha hb => exact .numbers hb ha
  | texts s t => exact .texts t s
  | booleans p q => exact .booleans q p
  | moments s t => exact .moments t s

theorem quantity?_isSome_iff {a : Value} : a.quantity?.isSome = true ↔ a.rank = 2 := by
  cases a <;> simp [quantity?, rank]

theorem rank_of_quantity? {a : Value} {x : Quantity} (h : a.quantity? = some x) : a.rank = 2 :=
  quantity?_isSome_iff.mp (by rw [h]; rfl)

theorem Comparable.rank_eq {a b : Value} (h : Comparable a b) : a.rank = b.rank := by
  cases h with
  | numbers ha hb => rw [rank_of_quantity? ha, rank_of_quantity? hb]
  | texts | booleans | moments => rfl

theorem compare_of_quantity? {a b : Value} {x y : Quantity} (ha : a.quantity? = some x)
    (hb : b.quantity? = some y) : a.compare b = x.totalCompare y := by
  simp only [compare, ha, hb]

theorem compare_of_not_comparable {a b : Value} (h : ¬ Comparable a b) :
    a.compare b = Ord.compare a.rank b.rank := by
  unfold compare
  split
  · exact absurd (.numbers ‹_› ‹_›) h
  · split
    · exact absurd (.texts _ _) h
    · exact absurd (.booleans _ _) h
    · exact absurd (.moments _ _) h
    · rfl

theorem compare_swap (a b : Value) : b.compare a = (a.compare b).swap := by
  by_cases h : Comparable a b
  · cases h with
    | numbers ha hb =>
      rw [compare_of_quantity? ha hb, compare_of_quantity? hb ha]
      exact Quantity.totalCompare_swap _ _
    | texts s t => exact compareText_swap s t
    | booleans p q => exact Std.OrientedOrd.eq_swap
    | moments s t => exact (Int.compare_swap _ _).symm
  · rw [compare_of_not_comparable h, compare_of_not_comparable fun h' => h h'.symm]
    exact (Nat.compare_swap _ _).symm

theorem rank_le_of_compare {a b : Value} (h : a.compare b ≠ .gt) : a.rank ≤ b.rank := by
  by_cases hc : Comparable a b
  · exact Nat.le_of_eq hc.rank_eq
  · rw [compare_of_not_comparable hc] at h
    exact Nat.compare_ne_gt.mp h

theorem rank_le_of_compare_gt {a b : Value} (h : a.compare b = .gt) : b.rank ≤ a.rank := by
  apply rank_le_of_compare
  rw [compare_swap a b, h]
  decide

/-- Three values that the order goes around: two integers with the double between them that both
round to, or two texts with a symbol between them. -/
inductive Clash : Value → Value → Value → Prop
  | rounding {a b c : Value} {m n : Int} (ha : a.quantity? = some (.integer m))
      (hb : b.quantity? = some (.real (.ofInt n))) (hc : c.quantity? = some (.integer n))
      (hlt : n < m) (he : Double.ofInt m = Double.ofInt n) : Clash a b c
  | symbol {s u : String} (t : String) (hlt : u < s) : Clash (.string s) (.symbol t) (.string u)

theorem Clash.compare_eq {a b c : Value} (h : Clash a b c) :
    a.compare b = .eq ∧ b.compare c = .eq ∧ a.compare c = .gt := by
  cases h with
  | @rounding _ _ _ m n ha hb hc hlt he =>
    rw [compare_of_quantity? ha hb, compare_of_quantity? hb hc, compare_of_quantity? ha hc]
    refine ⟨?_, ?_, Int.compare_eq_gt.mpr hlt⟩
    · have hkey : (Double.ofInt m).totalKey = (Double.ofInt n).totalKey :=
        congrArg Double.totalKey he
      exact Int.compare_eq_eq.mpr hkey
    · exact Int.compare_eq_eq.mpr rfl
  | symbol t hlt => exact ⟨rfl, rfl, compareText_eq_gt_iff.mpr hlt⟩

theorem clash_of_compare {a b c : Value} (hab : a.compare b ≠ .gt) (hbc : b.compare c ≠ .gt)
    (hac : a.compare c = .gt) : Clash a b c := by
  -- the three are of one kind, for kinds are compared as numbers
  have hle : a.rank ≤ b.rank := rank_le_of_compare hab
  have hle' : b.rank ≤ c.rank := rank_le_of_compare hbc
  have hge : c.rank ≤ a.rank := rank_le_of_compare_gt hac
  have hb : b.rank = a.rank := by omega
  have hc : Comparable a c := by
    apply Classical.byContradiction
    intro h
    have hrank : a.rank = c.rank := by omega
    rw [compare_of_not_comparable h, hrank, Std.ReflOrd.compare_self] at hac
    cases hac
  cases hc with
  | @numbers _ _ x z ha hc =>
    rw [rank_of_quantity? ha] at hb
    obtain ⟨y, hb⟩ := Option.isSome_iff_exists.mp (quantity?_isSome_iff.mpr hb)
    rw [compare_of_quantity? ha hb] at hab
    rw [compare_of_quantity? hb hc] at hbc
    rw [compare_of_quantity? ha hc] at hac
    obtain ⟨m, n, rfl, rfl, rfl, hlt, he⟩ := Quantity.eq_of_clash hab hbc hac
    exact .rounding ha hb hc hlt he
  | texts s u =>
    cases b with
    | string t =>
      have htexts : Ord.compare s u ≠ .gt := ne_gt_trans (y := t) hab hbc
      exact absurd hac htexts
    | symbol t => exact .symbol t (compareText_eq_gt_iff.mp hac)
    | _ => exact absurd hb (by simp [rank])
  | booleans p r =>
    cases b with
    | boolean q => exact absurd hac (ne_gt_trans hab hbc)
    | _ => exact absurd hb (by simp [rank])
  | moments s u =>
    cases b with
    | dateTime t => exact absurd hac (ne_gt_trans hab hbc)
    | _ => exact absurd hb (by simp [rank])

/-- The order of sorting is a total preorder but for the clashes: it can be reversed, and it is
transitive at three values unless they clash. -/
theorem compare_trans_iff_not_clash (a b c : Value) :
    b.compare a = (a.compare b).swap ∧
      ((a.compare b ≠ .gt → b.compare c ≠ .gt → a.compare c ≠ .gt) ↔ ¬ Clash a b c) := by
  refine ⟨compare_swap a b, ?_⟩
  constructor
  · intro h hclash
    obtain ⟨hab, hbc, hac⟩ := hclash.compare_eq
    exact h (by rw [hab]; decide) (by rw [hbc]; decide) hac
  · intro h hab hbc hac
    exact h (clash_of_compare hab hbc hac)

/-- The integers at and after 2 ^ 53 agree with the double 2 ^ 53, and differ. -/
theorem compare_not_transitive :
    ¬ ∀ a b c : Value, a.compare b ≠ .gt → b.compare c ≠ .gt → a.compare c ≠ .gt := by
  intro h
  apply h (.int64 9007199254740993) (.double ⟨0x4340000000000000⟩) (.int64 9007199254740992)
  · decide
  · decide
  · decide

end Value

end RecordStore
