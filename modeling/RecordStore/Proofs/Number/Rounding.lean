import RecordStore.Number.Double

namespace RecordStore

theorem twoTo_pos (e : Nat) : 0 < twoTo e := Nat.pow_pos (by decide)

theorem twoTo_add (a b : Nat) : twoTo (a + b) = twoTo a * twoTo b := Nat.pow_add 2 a b

namespace Double

theorem roundQuotient_cases (n den : Nat) :
    roundQuotient n den = n / den ∨ roundQuotient n den = n / den + 1 := by
  unfold roundQuotient
  simp only
  split
  · exact .inl rfl
  · split
    · exact .inr rfl
    · split <;> omega

theorem roundQuotient_le (n den : Nat) : roundQuotient n den ≤ n / den + 1 := by
  have h := roundQuotient_cases n den
  omega

theorem le_roundQuotient (n den : Nat) : n / den ≤ roundQuotient n den := by
  have h := roundQuotient_cases n den
  omega

theorem roundQuotient_mono {m n : Nat} (h : m ≤ n) (den : Nat) :
    roundQuotient m den ≤ roundQuotient n den := by
  have hq : m / den ≤ n / den := Nat.div_le_div_right h
  obtain hq | hq := Nat.lt_or_eq_of_le hq
  · have hnext : m / den + 1 ≤ n / den := hq
    calc roundQuotient m den ≤ m / den + 1 := roundQuotient_le m den
      _ ≤ n / den := hnext
      _ ≤ roundQuotient n den := le_roundQuotient n den
  · -- with the same quotient the larger number has the larger remainder
    have hm := Nat.div_add_mod m den
    have hn := Nat.div_add_mod n den
    rw [← hq] at hn
    have hr : m % den ≤ n % den := by omega
    unfold roundQuotient
    simp only [← hq]
    repeat' split
    all_goals omega

theorem roundQuotient_one (n : Nat) : roundQuotient n 1 = n := by
  have hr : n % 1 = 0 := Nat.mod_one n
  have hq : n / 1 = n := Nat.div_one n
  unfold roundQuotient
  simp [hr, hq]

def integerSignificand (n : Nat) : Nat :=
  if 52 ≤ n.log2 then roundQuotient n (twoTo (n.log2 - 52)) else n * twoTo (52 - n.log2)

/-- The pattern of the double nearest to a natural number, were there no largest double. -/
def integerMagnitude (n : Nat) : Nat :=
  if n = 0 then 0 else (n.log2 + 1022) * twoTo 52 + integerSignificand n

theorem floorLog2_one {n : Nat} (h : n ≠ 0) : floorLog2 n 1 = n.log2 := by
  have hone : Nat.log2 1 = 0 := by decide
  have hle : twoTo n.log2 ≤ n := Nat.log2_self_le h
  unfold floorLog2
  simp only [hone, Nat.one_mul, Int.natCast_zero, Int.sub_zero]
  rw [if_pos (Int.natCast_nonneg _), Int.toNat_natCast, if_neg (Nat.not_lt.mpr hle)]

theorem nearest_one (negative : Bool) (n : Nat) :
    nearest negative n 1 = ofMagnitude negative (min (integerMagnitude n) infinityMagnitude) := by
  unfold nearest integerMagnitude
  by_cases h : n = 0
  · rw [if_pos h, if_pos h, Nat.zero_min]
  · rw [if_neg h, if_neg h, floorLog2_one h]
    have hmax : max ((n.log2 : Int) - 52) (-1074) = (n.log2 : Int) - 52 := by omega
    have hexp : ((n.log2 : Int) - 52 + 1074).toNat = n.log2 + 1022 := by omega
    simp only [hmax, hexp]
    congr 3
    unfold integerSignificand
    by_cases hlog : 52 ≤ n.log2
    · have hnat : ((n.log2 : Int) - 52).toNat = n.log2 - 52 := by omega
      rw [if_pos hlog, if_pos (by omega), hnat, Nat.one_mul]
    · have hnat : (-((n.log2 : Int) - 52)).toNat = 52 - n.log2 := by omega
      rw [if_neg hlog, if_neg (by omega), hnat, roundQuotient_one]

theorem twoTo_le_integerSignificand {n : Nat} (h : n ≠ 0) :
    twoTo 52 ≤ integerSignificand n := by
  have hle : twoTo n.log2 ≤ n := Nat.log2_self_le h
  unfold integerSignificand
  split
  · rename_i hlog
    have hsplit : twoTo n.log2 = twoTo 52 * twoTo (n.log2 - 52) := by
      rw [← twoTo_add, Nat.add_sub_cancel' hlog]
    rw [hsplit] at hle
    exact Nat.le_trans ((Nat.le_div_iff_mul_le (twoTo_pos _)).mpr hle) (le_roundQuotient _ _)
  · have hsplit : twoTo 52 = twoTo n.log2 * twoTo (52 - n.log2) := by
      rw [← twoTo_add]
      congr 1
      omega
    rw [hsplit]
    exact Nat.mul_le_mul_right _ hle

theorem integerSignificand_le (n : Nat) : integerSignificand n ≤ twoTo 53 := by
  have hlt : n < twoTo (n.log2 + 1) := Nat.lt_log2_self
  unfold integerSignificand
  split
  · rename_i hlog
    have hsplit : twoTo (n.log2 + 1) = twoTo 53 * twoTo (n.log2 - 52) := by
      rw [← twoTo_add]
      congr 1
      omega
    rw [hsplit] at hlt
    have hq : n / twoTo (n.log2 - 52) < twoTo 53 := (Nat.div_lt_iff_lt_mul (twoTo_pos _)).mpr hlt
    exact Nat.le_trans (roundQuotient_le _ _) hq
  · have hsplit : twoTo 53 = twoTo (n.log2 + 1) * twoTo (52 - n.log2) := by
      rw [← twoTo_add]
      congr 1
      omega
    rw [hsplit]
    exact Nat.mul_le_mul_right _ (Nat.le_of_lt hlt)

theorem log2_mono {m n : Nat} (hm : m ≠ 0) (h : m ≤ n) : m.log2 ≤ n.log2 := by
  have hn : n ≠ 0 := fun hn => hm (Nat.le_zero.mp (hn ▸ h))
  exact (Nat.le_log2 hn).mpr (Nat.le_trans (Nat.log2_self_le hm) h)

theorem integerMagnitude_mono {m n : Nat} (h : m ≤ n) :
    integerMagnitude m ≤ integerMagnitude n := by
  unfold integerMagnitude
  by_cases hm : m = 0
  · rw [if_pos hm]
    exact Nat.zero_le _
  · have hn : n ≠ 0 := by omega
    rw [if_neg hm, if_neg hn]
    obtain hlog | hlog := Nat.lt_or_eq_of_le (log2_mono hm h)
    · -- the next binade begins where this one ends at the latest
      have hhigh := integerSignificand_le m
      have hlow := twoTo_le_integerSignificand hn
      have h53 : twoTo 53 = 2 * twoTo 52 := rfl
      have hp : twoTo 52 = 4503599627370496 := rfl
      rw [h53] at hhigh
      rw [hp] at hhigh hlow ⊢
      omega
    · have hsig : integerSignificand m ≤ integerSignificand n := by
        unfold integerSignificand
        rw [← hlog]
        split
        · exact roundQuotient_mono h _
        · exact Nat.mul_le_mul_right _ h
      rw [← hlog]
      exact Nat.add_le_add_left hsig _

theorem bits_ofMagnitude (negative : Bool) {n : Nat} (h : n < twoTo 63) :
    (ofMagnitude negative n).bits.toNat = if negative then twoTo 63 + n else n := by
  have hp : twoTo 63 = 9223372036854775808 := rfl
  rw [hp] at h ⊢
  refine UInt64.toNat_ofNat'.trans (Nat.mod_eq_of_lt ?_)
  rw [hp]
  split <;> omega

theorem magnitude_ofMagnitude (negative : Bool) {n : Nat} (h : n < twoTo 63) :
    (ofMagnitude negative n).magnitude = n := by
  rw [magnitude, bits_ofMagnitude negative h]
  cases negative with
  | false => exact Nat.mod_eq_of_lt h
  | true => exact (Nat.add_mod_left _ _).trans (Nat.mod_eq_of_lt h)

theorem negative_ofMagnitude (negative : Bool) {n : Nat} (h : n < twoTo 63) :
    (ofMagnitude negative n).negative = negative := by
  rw [Double.negative, bits_ofMagnitude negative h]
  cases negative with
  | false => exact decide_eq_false (Nat.not_le.mpr h)
  | true => exact decide_eq_true (Nat.le_add_right _ _)

theorem totalKey_ofMagnitude (negative : Bool) {n : Nat} (h : n < twoTo 63) :
    (ofMagnitude negative n).totalKey = if negative then -(n : Int) - 1 else n := by
  rw [totalKey, magnitude_ofMagnitude negative h, negative_ofMagnitude negative h]

theorem totalKey_ofInt (n : Int) :
    (ofInt n).totalKey =
      if n < 0 then -((min (integerMagnitude n.natAbs) infinityMagnitude : Nat) : Int) - 1
      else (min (integerMagnitude n.natAbs) infinityMagnitude : Nat) := by
  have hlt : min (integerMagnitude n.natAbs) infinityMagnitude < twoTo 63 :=
    Nat.lt_of_le_of_lt (Nat.min_le_right _ _) (by decide)
  rw [ofInt, nearest_one, totalKey_ofMagnitude _ hlt]
  by_cases h : n < 0 <;> simp [h]

theorem totalKey_ofInt_mono {m n : Int} (h : m ≤ n) :
    (ofInt m).totalKey ≤ (ofInt n).totalKey := by
  rw [totalKey_ofInt, totalKey_ofInt]
  by_cases hn : n < 0
  · have hm : m < 0 := by omega
    have hmag : integerMagnitude n.natAbs ≤ integerMagnitude m.natAbs :=
      integerMagnitude_mono (by omega)
    rw [if_pos hm, if_pos hn]
    omega
  · rw [if_neg hn]
    by_cases hm : m < 0
    · rw [if_pos hm]
      omega
    · have hmag : integerMagnitude m.natAbs ≤ integerMagnitude n.natAbs :=
        integerMagnitude_mono (by omega)
      rw [if_neg hm]
      omega

theorem totalKey_injective {a b : Double} (h : a.totalKey = b.totalKey) : a = b := by
  have hp : twoTo 63 = 9223372036854775808 := rfl
  have ha : a.bits.toNat < 18446744073709551616 := a.bits.toNat_lt
  have hb : b.bits.toNat < 18446744073709551616 := b.bits.toNat_lt
  have hbits : a.bits.toNat = b.bits.toNat := by
    unfold totalKey negative magnitude at h
    rw [hp] at h
    simp only [decide_eq_true_eq] at h
    split at h <;> split at h <;> omega
  cases a
  cases b
  exact congrArg Double.mk (UInt64.toNat_inj.mp hbits)

end Double

end RecordStore
