import RecordStore.Number.Decimal
import RecordStore.Proofs.Number.Rounding

namespace RecordStore.Double

theorem isNaN_ofMagnitude (negative : Bool) {n : Nat} (h : n ≤ infinityMagnitude) :
    (ofMagnitude negative n).isNaN = false := by
  have hlt : n < twoTo 63 := Nat.lt_of_le_of_lt h (by decide)
  rw [isNaN, magnitude_ofMagnitude negative hlt]
  exact decide_eq_false (Nat.not_lt.mpr h)

theorem isNaN_nearest (negative : Bool) (num den : Nat) :
    (nearest negative num den).isNaN = false := by
  unfold nearest
  split
  · exact isNaN_ofMagnitude negative (Nat.zero_le _)
  · exact isNaN_ofMagnitude negative (Nat.min_le_right _ _)

theorem isNaN_ofInt (n : Int) : (ofInt n).isNaN = false := isNaN_nearest _ _ _

theorem isNaN_ofScientific (negative : Bool) (coefficient : Nat) (exponent : Int) :
    (ofScientific negative coefficient exponent).isNaN = false := by
  unfold ofScientific
  repeat' split
  · exact isNaN_ofMagnitude negative (Nat.zero_le _)
  · exact isNaN_ofMagnitude negative (Nat.le_refl _)
  · exact isNaN_ofMagnitude negative (Nat.zero_le _)
  · exact isNaN_nearest _ _ _
  · exact isNaN_nearest _ _ _

theorem integerMagnitude_ne_zero {n : Nat} (h : n ≠ 0) : integerMagnitude n ≠ 0 := by
  have hpos : 0 < twoTo 52 := twoTo_pos 52
  have hlow : twoTo 52 ≤ integerSignificand n := twoTo_le_integerSignificand h
  rw [integerMagnitude, if_neg h]
  omega

theorem eq_zero_of_magnitude_ofInt {n : Int} (h : (ofInt n).magnitude = 0) : n = 0 := by
  have hlt : min (integerMagnitude n.natAbs) infinityMagnitude < twoTo 63 :=
    Nat.lt_of_le_of_lt (Nat.min_le_right _ _) (by decide)
  rw [ofInt, nearest_one, magnitude_ofMagnitude _ hlt] at h
  have hinf : infinityMagnitude ≠ 0 := by decide
  apply Classical.byContradiction
  intro hn
  have hmag : integerMagnitude n.natAbs ≠ 0 :=
    integerMagnitude_ne_zero fun h => hn (Int.natAbs_eq_zero.mp h)
  omega

variable {a b c : Double}

theorem compare?_eq_some_iff {o : Ordering} :
    a.compare? b = some o ↔ a.isNaN = false ∧ b.isNaN = false ∧ compare a.key b.key = o := by
  unfold compare?
  cases a.isNaN <;> cases b.isNaN <;> simp

theorem compare?_swap (a b : Double) : b.compare? a = (a.compare? b).map Ordering.swap := by
  rw [compare?, compare?, Bool.or_comm, ← Int.compare_swap a.key]
  split <;> rfl

theorem same_iff : a.same b = true ↔ a.isNaN = false ∧ b.isNaN = false ∧ a.key = b.key := by
  rw [same, beq_iff_eq, compare?_eq_some_iff, Int.compare_eq_eq]

theorem same_self (h : a.isNaN = false) : a.same a = true := same_iff.mpr ⟨h, h, rfl⟩

theorem same_symm (h : a.same b = true) : b.same a = true := by
  obtain ⟨ha, hb, hk⟩ := same_iff.mp h
  exact same_iff.mpr ⟨hb, ha, hk.symm⟩

theorem same_trans (h : a.same b = true) (h' : b.same c = true) : a.same c = true := by
  obtain ⟨ha, -, hk⟩ := same_iff.mp h
  obtain ⟨-, hc, hk'⟩ := same_iff.mp h'
  exact same_iff.mpr ⟨ha, hc, hk.trans hk'⟩

/-- Two zeros of which one is negative. -/
def OppositeZeros (a b : Double) : Prop :=
  a.magnitude = 0 ∧ b.magnitude = 0 ∧ a.negative ≠ b.negative

instance (a b : Double) : Decidable (OppositeZeros a b) := inferInstanceAs (Decidable (_ ∧ _))

theorem OppositeZeros.keys (h : OppositeZeros a b) : a.key = b.key ∧ a.totalKey ≠ b.totalKey := by
  obtain ⟨ha, hb, hs⟩ := h
  unfold key totalKey
  rw [ha, hb]
  cases hna : a.negative <;> cases hnb : b.negative <;> simp [hna, hnb] at hs ⊢

theorem compare_congr {i j k l : Int} (hlt : i < j ↔ k < l) (heq : i = j ↔ k = l) :
    compare i j = compare k l := by
  cases h : compare k l with
  | lt => exact Int.compare_eq_lt.mpr (hlt.mpr (Int.compare_eq_lt.mp h))
  | eq => exact Int.compare_eq_eq.mpr (heq.mpr (Int.compare_eq_eq.mp h))
  | gt =>
    have hgt := Int.compare_eq_gt.mp h
    refine Int.compare_eq_gt.mpr ?_
    omega

theorem totalCompare_eq_iff (a b : Double) :
    a.totalCompare b = compare a.key b.key ↔ ¬ OppositeZeros a b := by
  constructor
  · intro h hzeros
    obtain ⟨hkey, htotal⟩ := hzeros.keys
    rw [Int.compare_eq_eq.mpr hkey] at h
    exact htotal (Int.compare_eq_eq.mp h)
  · intro h
    rw [OppositeZeros] at h
    apply compare_congr
    all_goals
      unfold totalKey key
      cases hna : a.negative <;> cases hnb : b.negative <;> simp [hna, hnb] at h ⊢ <;> omega

theorem eq_of_key_eq (h : a.key = b.key) (hzeros : ¬ OppositeZeros a b) : a = b := by
  have htotal := (totalCompare_eq_iff a b).mpr hzeros
  rw [Int.compare_eq_eq.mpr h] at htotal
  exact totalKey_injective (Int.compare_eq_eq.mp htotal)

/-- Different integers that round to doubles of one value round to one double, which is no zero. -/
theorem ofInt_eq_of_key {m n : Int} (h : (ofInt m).key = (ofInt n).key) (hne : m ≠ n) :
    ofInt m = ofInt n ∧ (ofInt n).magnitude ≠ 0 := by
  have heq : ofInt m = ofInt n := by
    refine eq_of_key_eq h fun ⟨hm, hn, _⟩ => hne ?_
    rw [eq_zero_of_magnitude_ofInt hm, eq_zero_of_magnitude_ofInt hn]
  refine ⟨heq, fun hn => hne ?_⟩
  have hm : (ofInt m).magnitude = 0 := by rw [heq, hn]
  rw [eq_zero_of_magnitude_ofInt hm, eq_zero_of_magnitude_ofInt hn]

end RecordStore.Double

namespace RecordStore

theorem Decimal.isNaN_toDouble {d : Decimal}
    (h : ∀ negative signaling, d ≠ .nan negative signaling) : d.toDouble.isNaN = false := by
  cases d with
  | finite negative coefficient exponent => exact Double.isNaN_ofScientific _ _ _
  | infinity negative => exact Double.isNaN_ofMagnitude negative (Nat.le_refl _)
  | nan negative signaling => exact absurd rfl (h negative signaling)

end RecordStore
