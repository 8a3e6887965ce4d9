import Mathlib.Data.List.TakeWhile
import Mathlib.Data.Nat.Digits.Defs
import RecordStore.Number.Numeral
import RecordStore.Text.Blank

namespace RecordStore

namespace Blank

theorem isBlank_eq_false_of_isDigit {c : Char} (h : c.isDigit = true) : isBlank c = false := by
  simp only [Char.isDigit, Bool.and_eq_true, decide_eq_true_eq, ge_iff_le,
    UInt32.le_iff_toNat_le] at h
  have hlow : 48 ≤ c.toNat := h.1
  have hhigh : c.toNat ≤ 57 := h.2
  simp only [isBlank, Bool.or_eq_false_iff, Bool.and_eq_false_iff, decide_eq_false_iff_not,
    beq_eq_false_iff_ne]
  omega

theorem exists_trim_eq (cs : List Char) : ∃ before after, cs = before ++ trim cs ++ after ∧
    ∀ c ∈ before ++ after, isBlank c = true := by
  have hcs := List.takeWhile_append_dropWhile (p := isBlank) (l := cs)
  have hrest := List.takeWhile_append_dropWhile (p := isBlank)
    (l := (cs.dropWhile isBlank).reverse)
  refine ⟨cs.takeWhile isBlank, ((cs.dropWhile isBlank).reverse.takeWhile isBlank).reverse,
    ?_, fun c hc => ?_⟩
  · rw [trim, List.append_assoc, ← List.reverse_append, hrest, List.reverse_reverse, hcs]
  · obtain hc | hc := List.mem_append.mp hc
    · exact List.mem_takeWhile_imp hc
    · exact List.mem_takeWhile_imp (List.mem_reverse.mp hc)

theorem dropWhile_append {before body : List Char} (hbefore : ∀ c ∈ before, isBlank c = true)
    (hbody : ∀ c ∈ body, isBlank c = false) (hne : body ≠ []) (after : List Char) :
    (before ++ body ++ after).dropWhile isBlank = body ++ after := by
  obtain ⟨c, cs, rfl⟩ := List.exists_cons_of_ne_nil hne
  have hc : ¬ isBlank c = true := by simp [hbody c List.mem_cons_self]
  rw [List.append_assoc, List.dropWhile_append_of_pos hbefore, List.cons_append,
    List.dropWhile_cons_of_neg hc]

theorem trim_append {before body after : List Char}
    (hblank : ∀ c ∈ before ++ after, isBlank c = true) (hbody : ∀ c ∈ body, isBlank c = false)
    (hne : body ≠ []) : trim (before ++ body ++ after) = body := by
  obtain ⟨hbefore, hafter⟩ := List.forall_mem_append.mp hblank
  have hback : (after.reverse ++ body.reverse ++ []).dropWhile isBlank = body.reverse ++ [] :=
    dropWhile_append (by simpa using hafter) (by simpa using hbody) (by simpa using hne) []
  rw [List.append_nil, List.append_nil, ← List.reverse_append] at hback
  rw [trim, dropWhile_append hbefore hbody hne, hback, List.reverse_reverse]

end Blank

namespace Numeral

variable {cs : List Char} {n : Nat}

def positional (digits : List Char) : Nat := Nat.ofDigits 10 (digits.reverse.map digitValue)

theorem ofDigits_eq_positional (cs : List Char) : ofDigits cs = positional cs := by
  have hstep : (fun n c => 10 * n + digitValue c) = fun n c => digitValue c + 10 * n :=
    funext₂ fun _ _ => Nat.add_comm _ _
  rw [ofDigits, positional, Nat.ofDigits_eq_foldr, List.foldr_map, List.foldr_reverse, hstep]
  rfl

def IsDigits (cs : List Char) : Prop := cs ≠ [] ∧ ∀ c ∈ cs, c.isDigit = true

/-- A text that writes a number: its digits after at most one plus sign, between blanks. -/
def Writes (cs : List Char) (n : Nat) : Prop :=
  ∃ before sign digits after, cs = before ++ (sign ++ digits) ++ after ∧
    (∀ c ∈ before ++ after, Blank.isBlank c = true) ∧ (sign = [] ∨ sign = ['+']) ∧
    IsDigits digits ∧ n = positional digits

theorem natural?_eq_some_iff : natural? cs = some n ↔ IsDigits cs ∧ n = positional cs := by
  unfold natural?
  split
  case isTrue h =>
    refine iff_of_false nofun fun ⟨⟨hne, hdigits⟩, _⟩ => ?_
    simp [hne, List.all_eq_true.mpr hdigits] at h
  case isFalse h =>
    have hdigits : IsDigits cs := by simpa [IsDigits] using h
    rw [Option.some.injEq, and_iff_right hdigits, ofDigits_eq_positional, eq_comm]

theorem IsDigits.head_ne {c : Char} (h : IsDigits (c :: cs)) : c ≠ '+' := by
  rintro rfl
  exact absurd (h.2 '+' List.mem_cons_self) (by decide)

theorem unsigned?_eq_some_iff : unsigned? cs = some n ↔
    ∃ sign digits, cs = sign ++ digits ∧ (sign = [] ∨ sign = ['+']) ∧ IsDigits digits ∧
      n = positional digits := by
  constructor
  · intro h
    unfold unsigned? at h
    split at h
    · exact ⟨['+'], _, rfl, .inr rfl, natural?_eq_some_iff.mp h⟩
    · exact ⟨[], cs, rfl, .inl rfl, natural?_eq_some_iff.mp h⟩
  · rintro ⟨sign, digits, rfl, rfl | rfl, h⟩
    · -- digits do not begin with a plus sign, so that none is taken off
      obtain ⟨c, cs, rfl⟩ := List.exists_cons_of_ne_nil h.1.1
      rw [List.nil_append, unsigned?]
      · exact natural?_eq_some_iff.mpr h
      · exact fun _ hc => h.1.head_ne (List.cons.inj hc).1
    · exact natural?_eq_some_iff.mpr h

theorem unsigned?_trim_eq_some_iff : unsigned? (Blank.trim cs) = some n ↔ Writes cs n := by
  rw [unsigned?_eq_some_iff]
  constructor
  · rintro ⟨sign, digits, htrim, hsign, hdigits, hn⟩
    obtain ⟨before, after, hcs, hblank⟩ := Blank.exists_trim_eq cs
    exact ⟨before, sign, digits, after, htrim ▸ hcs, hblank, hsign, hdigits, hn⟩
  · rintro ⟨before, sign, digits, after, rfl, hblank, hsign, hdigits, hn⟩
    have hbody : ∀ c ∈ sign ++ digits, Blank.isBlank c = false := by
      have hplain := fun c hc => Blank.isBlank_eq_false_of_isDigit (hdigits.2 c hc)
      refine List.forall_mem_append.mpr ⟨?_, hplain⟩
      obtain rfl | rfl := hsign
      · exact nofun
      · exact List.forall_mem_singleton.mpr rfl
    have hne : sign ++ digits ≠ [] := List.append_ne_nil_of_right_ne_nil sign hdigits.1
    exact ⟨sign, digits, Blank.trim_append hblank hbody hne, hsign, hdigits, hn⟩

theorem unsignedBelow?_eq_some_iff {bound : Nat} :
    unsignedBelow? bound cs = some n ↔ unsigned? cs = some n ∧ n < bound := by
  rw [unsignedBelow?, Option.filter_eq_some_iff, decide_eq_true_iff]

end Numeral

end RecordStore
