import RecordStore.Backend.Memory
import RecordStore.Patch
import RecordStore.Proofs.Value.Shape
import RecordStore.Store.Storable

namespace RecordStore

/-- What an identifier says: an integer of either width, or a text. -/
inductive Key where
  | number (n : Int)
  | text (s : String)
deriving DecidableEq, Repr

def Value.key? : Value → Option Key
  | .int32 n => some (.number n.toInt)
  | .int64 n => some (.number n.toInt)
  | .string s => some (.text s)
  | _ => none

def Document.key? (d : Document) (name : String) : Option Key := (d.get? name).bind Value.key?

namespace Value

theorem quantity?_of_key? {v : Value} {n : Int} (h : v.key? = some (.number n)) :
    v.quantity? = some (.integer n) := by
  cases v with
  | int32 | int64 =>
    cases h
    rfl
  | _ => cases h

theorem eq_string_of_key? {v : Value} {s : String} (h : v.key? = some (.text s)) :
    v = .string s := by
  cases v with
  | string =>
    cases h
    rfl
  | _ => cases h

theorem same_eq_decide {v w : Value} {k l : Key} (hv : v.key? = some k) (hw : w.key? = some l) :
    v.same w = decide (k = l) := by
  cases k with
  | number m =>
    have hq := quantity?_of_key? hv
    cases l with
    | number n =>
      rw [Bool.eq_iff_iff]
      simp [same, hq, quantity?_of_key? hw, Quantity.compare?]
    | text t =>
      obtain rfl := eq_string_of_key? hw
      cases v with
      | int32 | int64 => simp [same, quantity?, equal, scalarEqual]
      | _ => cases hv
  | text s =>
    obtain rfl := eq_string_of_key? hv
    cases l with
    | number n =>
      cases w with
      | int32 | int64 => simp [same, quantity?, equal, scalarEqual]
      | _ => cases hw
    | text t =>
      obtain rfl := eq_string_of_key? hw
      rw [Bool.eq_iff_iff]
      simp [same, quantity?, equal, scalarEqual]

theorem isUsable_of_key? {v : Value} {k : Key} (h : v.key? = some k) : Storable.isUsable v := by
  cases v <;> first | rfl | cases h

theorem isPlain_of_key? {v : Value} {k : Key} (h : v.key? = some k) : v.IsPlain := by
  constructor
  · rintro d rfl
    cases h
  · rintro items rfl
    cases h

theorem strip_of_key? {v : Value} {k : Key} (h : v.key? = some k) : v.strip = v := by
  cases v <;> first | rfl | cases h

theorem isUndefined_of_key? {v : Value} {k : Key} (h : v.key? = some k) :
    v.isUndefined = false := by
  cases v <;> first | rfl | cases h

end Value

namespace Document

theorem get?_strip {d : Document} {name : String} {v : Value} (h : d.get? name = some v)
    (hv : v.isUndefined = false) : d.strip.get? name = some v.strip := by
  unfold strip
  induction d with
  | nil => cases h
  | cons e d ih =>
    obtain ⟨k, w⟩ := e
    rw [get?_cons] at h
    rw [stripEntries]
    by_cases hk : name = k
    · rw [if_pos hk] at h
      obtain rfl := Option.some.inj h
      rw [hv, if_neg Bool.false_ne_true, get?_cons, if_pos hk]
    · rw [if_neg hk] at h
      split
      · exact ih h
      · rw [get?_cons, if_neg hk, ih h]

theorem key?_strip {d : Document} {name : String} {k : Key} (h : d.key? name = some k) :
    d.strip.key? name = some k := by
  obtain ⟨v, hv, hk⟩ := Option.bind_eq_some_iff.mp h
  rw [key?, get?_strip hv (Value.isUndefined_of_key? hk), Value.strip_of_key? hk]
  exact hk

end Document

theorem Identifier.matchesRecord_eq_decide {id : Identifier} {d : Document} {k l : Key}
    (hid : id.value.key? = some k) (hd : d.key? id.name = some l) :
    id.matchesRecord d = decide (l = k) := by
  obtain ⟨v, hv, hl⟩ := Option.bind_eq_some_iff.mp hd
  rw [matchesRecord, hv]
  exact Value.same_eq_decide hl hid

end RecordStore
