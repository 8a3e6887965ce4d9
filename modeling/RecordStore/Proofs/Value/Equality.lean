import Mathlib.Data.List.Perm.Subperm
import RecordStore.Proofs.Number.Comparison
import RecordStore.Proofs.Value.Names
import RecordStore.Value.Equality

namespace RecordStore

mutual

def Value.everyPart (test : Value → Bool) : Value → Bool
  | .document d => test (.document d) && everyEntryPart test d
  | .scopedCode source scope => test (.scopedCode source scope) && everyEntryPart test scope
  | .array items => test (.array items) && everyItemPart test items
  | v => test v

def everyItemPart (test : Value → Bool) : List Value → Bool
  | [] => true
  | v :: items => v.everyPart test && everyItemPart test items

def everyEntryPart (test : Value → Bool) : List (String × Value) → Bool
  | [] => true
  | (_, v) :: entries => v.everyPart test && everyEntryPart test entries

end

namespace Value

/-- No document in the value, the scopes of code included, has a name twice. Assignments lead to
no other values. -/
def NamesOnce (v : Value) : Prop :=
  v.everyPart (fun
    | document d | scopedCode _ d => decide (Document.keys d).Nodup
    | _ => true) = true

def isNaN : Value → Bool
  | double d => d.isNaN
  | decimal (.nan _ _) => true
  | _ => false

/-- The value is no NaN and none stands in it. -/
def FreeOfNaN (v : Value) : Prop := v.everyPart (fun w => !w.isNaN) = true

instance (v : Value) : Decidable v.NamesOnce := inferInstanceAs (Decidable (_ = true))

instance (v : Value) : Decidable v.FreeOfNaN := inferInstanceAs (Decidable (_ = true))

theorem everyItemPart_iff {test : Value → Bool} {items : List Value} :
    everyItemPart test items = true ↔ ∀ v ∈ items, v.everyPart test = true := by
  induction items with
  | nil => exact iff_of_true rfl (fun _ h => nomatch h)
  | cons v items ih =>
    rw [List.forall_mem_cons, ← ih]
    exact Bool.and_eq_true_iff

theorem everyEntryPart_iff {test : Value → Bool} {entries : List (String × Value)} :
    everyEntryPart test entries = true ↔ ∀ e ∈ entries, e.2.everyPart test = true := by
  induction entries with
  | nil => exact iff_of_true rfl (fun _ h => nomatch h)
  | cons e entries ih =>
    rw [List.forall_mem_cons, ← ih]
    exact Bool.and_eq_true_iff

section Parts

variable {test : Value → Bool}

theorem passes_of_everyPart {v : Value} (h : v.everyPart test = true) : test v = true := by
  cases v with
  | document | scopedCode | array => exact (Bool.and_eq_true_iff.mp h).1
  | _ => exact h

theorem everyPart_document_iff {d : Document} :
    (document d).everyPart test = true ↔
      test (document d) = true ∧ ∀ e ∈ d, e.2.everyPart test = true :=
  Bool.and_eq_true_iff.trans (and_congr_right' everyEntryPart_iff)

theorem everyPart_scopedCode_iff {source : String} {scope : Document} :
    (scopedCode source scope).everyPart test = true ↔
      test (scopedCode source scope) = true ∧ ∀ e ∈ scope, e.2.everyPart test = true :=
  Bool.and_eq_true_iff.trans (and_congr_right' everyEntryPart_iff)

theorem everyPart_array_iff {items : List Value} :
    (array items).everyPart test = true ↔
      test (array items) = true ∧ ∀ v ∈ items, v.everyPart test = true :=
  Bool.and_eq_true_iff.trans (and_congr_right' everyItemPart_iff)

end Parts

theorem FreeOfNaN.isNaN_eq_false {v : Value} (h : v.FreeOfNaN) : v.isNaN = false := by
  simpa using passes_of_everyPart h

theorem namesOnce_document_iff {d : Document} :
    (document d).NamesOnce ↔ d.keys.Nodup ∧ ∀ e ∈ d, e.2.NamesOnce :=
  everyPart_document_iff.trans (and_congr_left' decide_eq_true_iff)

theorem namesOnce_scopedCode_iff {source : String} {scope : Document} :
    (scopedCode source scope).NamesOnce ↔ scope.keys.Nodup ∧ ∀ e ∈ scope, e.2.NamesOnce :=
  everyPart_scopedCode_iff.trans (and_congr_left' decide_eq_true_iff)

def IsLeaf (v : Value) : Prop :=
  (∀ d, v ≠ document d) ∧ (∀ source scope, v ≠ scopedCode source scope) ∧
    ∀ items, v ≠ array items

theorem sizeOf_lt_of_mem {entries : List (String × Value)} {e : String × Value}
    (h : e ∈ entries) : sizeOf e.2 < sizeOf entries := by
  have hlt : sizeOf e < sizeOf entries := List.sizeOf_lt_of_mem h
  have he : sizeOf e = 1 + sizeOf e.1 + sizeOf e.2 := rfl
  omega

/-- What passes from the parts of a value to the value holds of all values. -/
@[elab_as_elim]
theorem parts_induction {P : Value → Prop} (leaf : ∀ v : Value, v.IsLeaf → P v)
    (inDocument : ∀ d : Document, (∀ e ∈ d, P e.2) → P (document d))
    (inScope : ∀ source (scope : Document), (∀ e ∈ scope, P e.2) → P (scopedCode source scope))
    (inArray : ∀ items : List Value, (∀ v ∈ items, P v) → P (array items)) (v : Value) : P v := by
  cases v with
  | document d => exact inDocument d fun e he => parts_induction leaf inDocument inScope inArray e.2
  | scopedCode source scope =>
    exact inScope source scope fun e he => parts_induction leaf inDocument inScope inArray e.2
  | array items =>
    exact inArray items fun v hv => parts_induction leaf inDocument inScope inArray v
  | _ => exact leaf _ (by simp [IsLeaf])
termination_by sizeOf v
decreasing_by
  all_goals simp only [document.sizeOf_spec, scopedCode.sizeOf_spec, array.sizeOf_spec]
  · have hlt := sizeOf_lt_of_mem he
    omega
  · have hlt := sizeOf_lt_of_mem he
    omega
  · have hlt := List.sizeOf_lt_of_mem hv
    omega

theorem equal_of_isLeaf {a : Value} (h : a.IsLeaf) (b : Value) : a.equal b = a.scalarEqual b := by
  cases a with
  | document d => exact absurd rfl (h.1 d)
  | scopedCode source scope => exact absurd rfl (h.2.1 source scope)
  | array items => exact absurd rfl (h.2.2 items)
  | _ => rfl

theorem equal_document_iff {d : Document} {b : Value} :
    (document d).equal b = true ↔ ∃ e, b = document e ∧ d.equal e = true := by
  constructor
  · intro h
    cases b with
    | document e => exact ⟨e, rfl, h⟩
    | _ => exact nomatch h
  · rintro ⟨e, rfl, h⟩
    exact h

theorem equal_scopedCode_iff {source : String} {d : Document} {b : Value} :
    (scopedCode source d).equal b = true ↔
      ∃ e, b = scopedCode source e ∧ d.equal e = true := by
  constructor
  · intro h
    cases b with
    | scopedCode source' e =>
      obtain ⟨hsource, he⟩ := Bool.and_eq_true_iff.mp h
      obtain rfl : source = source' := beq_iff_eq.mp hsource
      exact ⟨e, rfl, he⟩
    | _ => exact nomatch h
  · rintro ⟨e, rfl, h⟩
    exact Bool.and_eq_true_iff.mpr ⟨beq_self_eq_true source, h⟩

theorem equal_array_iff {items : List Value} {b : Value} :
    (array items).equal b = true ↔
      ∃ others, b = array others ∧ itemsEqual items others = true := by
  constructor
  · intro h
    cases b with
    | array others => exact ⟨others, rfl, h⟩
    | _ => exact nomatch h
  · rintro ⟨others, rfl, h⟩
    exact h

theorem eq_or_double_of_scalarEqual {a b : Value} (h : a.scalarEqual b = true) :
    a = b ∨ ∃ d e, a = double d ∧ b = double e ∧ d.same e = true := by
  unfold scalarEqual at h
  split at h <;> simp_all

theorem scalarEqual_self {v : Value} (hl : v.IsLeaf) (hn : v.isNaN = false) :
    v.scalarEqual v = true := by
  cases v with
  | document d => exact absurd rfl (hl.1 d)
  | scopedCode source scope => exact absurd rfl (hl.2.1 source scope)
  | array items => exact absurd rfl (hl.2.2 items)
  | double d => exact Double.same_self hn
  | null | undefined | minKey | maxKey => rfl
  | binary | timestamp | regex | dbPointer =>
    exact Bool.and_eq_true_iff.mpr ⟨beq_self_eq_true _, beq_self_eq_true _⟩
  | _ => exact beq_self_eq_true _

theorem scalarEqual_trans {a b c : Value} (h : a.scalarEqual b = true)
    (h' : b.scalarEqual c = true) : a.scalarEqual c = true := by
  obtain rfl | ⟨d, e, rfl, rfl, hsame⟩ := eq_or_double_of_scalarEqual h
  · exact h'
  · obtain rfl | ⟨e, f, he, rfl, hsame'⟩ := eq_or_double_of_scalarEqual h'
    · exact h
    · obtain rfl := double.inj he
      exact Double.same_trans hsame hsame'

end Value

theorem itemsEqual_self {items : List Value} (h : ∀ v ∈ items, v.equal v = true) :
    itemsEqual items items = true := by
  induction items with
  | nil => rfl
  | cons v items ih =>
    obtain ⟨hv, hitems⟩ := List.forall_mem_cons.mp h
    rw [itemsEqual, hv, ih hitems, Bool.and_self]

theorem itemsEqual_symm {xs ys : List Value}
    (hsymm : ∀ x ∈ xs, ∀ y ∈ ys, x.equal y = true → y.equal x = true)
    (h : itemsEqual xs ys = true) : itemsEqual ys xs = true := by
  induction xs generalizing ys with
  | nil =>
    cases ys with
    | nil => rfl
    | cons y ys => exact nomatch h
  | cons x xs ih =>
    cases ys with
    | nil => exact nomatch h
    | cons y ys =>
      obtain ⟨hx, hxs⟩ := List.forall_mem_cons.mp hsymm
      rw [itemsEqual, Bool.and_eq_true] at h ⊢
      exact ⟨hx y List.mem_cons_self h.1,
        ih (fun x' hx' y' hy' => hxs x' hx' y' (List.mem_cons_of_mem y hy')) h.2⟩

theorem itemsEqual_trans {xs ys zs : List Value}
    (htrans : ∀ x ∈ xs, ∀ y z, x.equal y = true → y.equal z = true → x.equal z = true)
    (h : itemsEqual xs ys = true) (h' : itemsEqual ys zs = true) : itemsEqual xs zs = true := by
  induction xs generalizing ys zs with
  | nil =>
    cases ys with
    | nil => exact h'
    | cons y ys => exact nomatch h
  | cons x xs ih =>
    cases ys with
    | nil => exact nomatch h
    | cons y ys =>
      cases zs with
      | nil => exact nomatch h'
      | cons z zs =>
        obtain ⟨hx, hxs⟩ := List.forall_mem_cons.mp htrans
        rw [itemsEqual, Bool.and_eq_true] at h h' ⊢
        exact ⟨hx y z h.1 h'.1, ih hxs h.2 h'.2⟩

namespace Document

theorem entriesWithin_iff {d e : Document} :
    entriesWithin d e = true ↔
      ∀ entry ∈ d, ∃ w, e.get? entry.1 = some w ∧ entry.2.equal w = true := by
  induction d with
  | nil => simp [entriesWithin]
  | cons entry d ih =>
    rw [entriesWithin, Bool.and_eq_true, ih, List.forall_mem_cons]
    refine and_congr_left' ?_
    cases e.get? entry.1 <;> simp

theorem equal_iff {d e : Document} :
    d.equal e = true ↔ d.length = e.length ∧
      ∀ entry ∈ d, ∃ w, e.get? entry.1 = some w ∧ entry.2.equal w = true := by
  rw [equal, Bool.and_eq_true, beq_iff_eq, entriesWithin_iff]

theorem equal_self {d : Document} (hd : d.keys.Nodup) (h : ∀ e ∈ d, e.2.equal e.2 = true) :
    d.equal d = true :=
  equal_iff.mpr ⟨rfl, fun e he => ⟨e.2, get?_of_mem hd he, h e he⟩⟩

theorem keys_subset_of_equal {d e : Document} (hd : d.keys.Nodup) (h : d.equal e = true) :
    e.keys ⊆ d.keys := by
  obtain ⟨hlength, hwithin⟩ := equal_iff.mp h
  have hsub : d.keys ⊆ e.keys := by
    refine List.forall_mem_map.mpr fun entry hentry => ?_
    obtain ⟨w, hw, -⟩ := hwithin entry hentry
    exact (isSome_get?_iff e entry.1).mp (by rw [hw]; rfl)
  -- the other one has no more names than these
  have hle : e.keys.length ≤ d.keys.length := by
    rw [keys, keys, List.length_map, List.length_map]
    exact Nat.le_of_eq hlength.symm
  exact ((hd.subperm hsub).perm_of_length_le hle).symm.subset

theorem equal_symm {d e : Document} (hd : d.keys.Nodup) (he : e.keys.Nodup)
    (hsymm : ∀ x ∈ d, ∀ y ∈ e, x.2.equal y.2 = true → y.2.equal x.2 = true)
    (h : d.equal e = true) : e.equal d = true := by
  obtain ⟨hlength, hwithin⟩ := equal_iff.mp h
  refine equal_iff.mpr ⟨hlength.symm, fun y hy => ?_⟩
  obtain ⟨x, hx, hname⟩ := List.mem_map.mp (keys_subset_of_equal hd h (List.mem_map_of_mem hy))
  obtain ⟨w, hw, hequal⟩ := hwithin x hx
  rw [hname, get?_of_mem he hy] at hw
  obtain rfl := Option.some.inj hw
  refine ⟨x.2, ?_, hsymm x hx y hy hequal⟩
  rw [← hname]
  exact get?_of_mem hd hx

theorem equal_trans {d e f : Document}
    (htrans : ∀ x ∈ d, ∀ y z, x.2.equal y = true → y.equal z = true → x.2.equal z = true)
    (h : d.equal e = true) (h' : e.equal f = true) : d.equal f = true := by
  obtain ⟨hlength, hwithin⟩ := equal_iff.mp h
  obtain ⟨hlength', hwithin'⟩ := equal_iff.mp h'
  refine equal_iff.mpr ⟨hlength.trans hlength', fun x hx => ?_⟩
  obtain ⟨y, hy, hxy⟩ := hwithin x hx
  obtain ⟨z, hz, hyz⟩ := hwithin' _ (mem_of_get? hy)
  exact ⟨z, hz, htrans x hx y z hxy hyz⟩

end Document

namespace Value

theorem equal_self {v : Value} (hv : v.NamesOnce) (hn : v.FreeOfNaN) : v.equal v = true := by
  induction v using parts_induction with
  | leaf v hl =>
    rw [equal_of_isLeaf hl]
    exact scalarEqual_self hl hn.isNaN_eq_false
  | inDocument d ih =>
    obtain ⟨hkeys, hparts⟩ := namesOnce_document_iff.mp hv
    obtain ⟨-, hfree⟩ := everyPart_document_iff.mp hn
    exact equal_document_iff.mpr
      ⟨d, rfl, Document.equal_self hkeys fun e he => ih e he (hparts e he) (hfree e he)⟩
  | inScope source scope ih =>
    obtain ⟨hkeys, hparts⟩ := namesOnce_scopedCode_iff.mp hv
    obtain ⟨-, hfree⟩ := everyPart_scopedCode_iff.mp hn
    exact equal_scopedCode_iff.mpr
      ⟨scope, rfl, Document.equal_self hkeys fun e he => ih e he (hparts e he) (hfree e he)⟩
  | inArray items ih =>
    obtain ⟨-, hparts⟩ := everyPart_array_iff.mp hv
    obtain ⟨-, hfree⟩ := everyPart_array_iff.mp hn
    exact equal_array_iff.mpr
      ⟨items, rfl, itemsEqual_self fun i hi => ih i hi (hparts i hi) (hfree i hi)⟩

theorem equal_symm {a b : Value} (ha : a.NamesOnce) (hb : b.NamesOnce) (h : a.equal b = true) :
    b.equal a = true := by
  induction a using parts_induction generalizing b with
  | leaf a hl =>
    rw [equal_of_isLeaf hl] at h
    obtain rfl | ⟨d, e, rfl, rfl, hsame⟩ := eq_or_double_of_scalarEqual h
    · rw [equal_of_isLeaf hl]
      exact h
    · exact Double.same_symm hsame
  | inDocument d ih =>
    obtain ⟨e, rfl, he⟩ := equal_document_iff.mp h
    obtain ⟨hkeys, hparts⟩ := namesOnce_document_iff.mp ha
    obtain ⟨hkeys', hparts'⟩ := namesOnce_document_iff.mp hb
    exact equal_document_iff.mpr ⟨d, rfl, Document.equal_symm hkeys hkeys'
      (fun x hx y hy => ih x hx (hparts x hx) (hparts' y hy)) he⟩
  | inScope source scope ih =>
    obtain ⟨e, rfl, he⟩ := equal_scopedCode_iff.mp h
    obtain ⟨hkeys, hparts⟩ := namesOnce_scopedCode_iff.mp ha
    obtain ⟨hkeys', hparts'⟩ := namesOnce_scopedCode_iff.mp hb
    exact equal_scopedCode_iff.mpr ⟨scope, rfl, Document.equal_symm hkeys hkeys'
      (fun x hx y hy => ih x hx (hparts x hx) (hparts' y hy)) he⟩
  | inArray items ih =>
    obtain ⟨others, rfl, ho⟩ := equal_array_iff.mp h
    obtain ⟨-, hparts⟩ := everyPart_array_iff.mp ha
    obtain ⟨-, hparts'⟩ := everyPart_array_iff.mp hb
    exact equal_array_iff.mpr ⟨items, rfl, itemsEqual_symm
      (fun x hx y hy => ih x hx (hparts x hx) (hparts' y hy)) ho⟩

theorem equal_trans {a b c : Value} (h : a.equal b = true) (h' : b.equal c = true) :
    a.equal c = true := by
  induction a using parts_induction generalizing b c with
  | leaf a hl =>
    rw [equal_of_isLeaf hl] at h ⊢
    obtain rfl | ⟨d, e, rfl, rfl, hsame⟩ := eq_or_double_of_scalarEqual h
    · rw [← equal_of_isLeaf hl]
      exact h'
    · -- the doubles in between need not be the same, but they are leaves
      have hl' : (double e).IsLeaf := by simp [IsLeaf]
      rw [equal_of_isLeaf hl'] at h'
      exact scalarEqual_trans h h'
  | inDocument d ih =>
    obtain ⟨e, rfl, he⟩ := equal_document_iff.mp h
    obtain ⟨f, rfl, hf⟩ := equal_document_iff.mp h'
    exact equal_document_iff.mpr
      ⟨f, rfl, Document.equal_trans (fun x hx y z hxy hyz => ih x hx hxy hyz) he hf⟩
  | inScope source scope ih =>
    obtain ⟨e, rfl, he⟩ := equal_scopedCode_iff.mp h
    obtain ⟨f, rfl, hf⟩ := equal_scopedCode_iff.mp h'
    exact equal_scopedCode_iff.mpr
      ⟨f, rfl, Document.equal_trans (fun x hx y z hxy hyz => ih x hx hxy hyz) he hf⟩
  | inArray items ih =>
    obtain ⟨others, rfl, ho⟩ := equal_array_iff.mp h
    obtain ⟨thirds, rfl, ht⟩ := equal_array_iff.mp h'
    exact equal_array_iff.mpr
      ⟨thirds, rfl, itemsEqual_trans (fun x hx y z hxy hyz => ih x hx hxy hyz) ho ht⟩

end Value

end RecordStore
