import Mathlib.Data.List.Forall2
import RecordStore.Proofs.Value.Sameness
import RecordStore.Proofs.Value.Walk

namespace RecordStore

section Pairs

variable {α β : Type} {R : α → β → Prop} {xs : List α} {ys : List β} {p : α → Bool} {q : β → Bool}

theorem any_eq_any_of_forall₂ (h : List.Forall₂ R xs ys) (hpq : ∀ x y, R x y → p x = q y) :
    xs.any p = ys.any q := by
  induction h with
  | nil => rfl
  | cons hxy _ ih => rw [List.any_cons, List.any_cons, hpq _ _ hxy, ih]

theorem all_eq_all_of_forall₂ (h : List.Forall₂ R xs ys) (hpq : ∀ x y, R x y → p x = q y) :
    xs.all p = ys.all q := by
  induction h with
  | nil => rfl
  | cons hxy _ ih => rw [List.all_cons, List.all_cons, hpq _ _ hxy, ih]

end Pairs

theorem Quantity.compare?_eq_of_same {d e : Double} (h : d.same e = true) (y : Quantity) :
    (real d).compare? y = (real e).compare? y := by
  obtain ⟨hd, he, hk⟩ := Double.same_iff.mp h
  cases y <;> simp only [compare?, toDouble, Double.compare?, hd, he, hk]

namespace Value

/-- Strictly equal values, in neither of which a document has a name twice. -/
structure Equals (a b : Value) : Prop where
  left : a.NamesOnce
  right : b.NamesOnce
  equal : a.equal b = true

inductive Paired : Value → Value → Prop
  | leaf {v : Value} (hl : v.IsLeaf) : Paired v v
  | doubles {d e : Double} (h : d.same e = true) : Paired (double d) (double e)
  | documents {d e : Document} (h : (document d).Equals (document e)) :
      Paired (document d) (document e)
  | scopes {source : String} {d e : Document} : Paired (scopedCode source d) (scopedCode source e)
  | arrays {xs ys : List Value} (h : List.Forall₂ Equals xs ys) : Paired (array xs) (array ys)

namespace Equals

variable {a b : Value}

theorem symm (h : a.Equals b) : b.Equals a := ⟨h.right, h.left, equal_symm h.left h.right h.equal⟩

theorem trans {c : Value} (h : a.Equals b) (h' : b.Equals c) : a.Equals c :=
  ⟨h.left, h'.right, equal_trans h.equal h'.equal⟩

theorem equal_eq (h : a.Equals b) (v : Value) : a.equal v = b.equal v := by
  rw [Bool.eq_iff_iff]
  exact ⟨equal_trans h.symm.equal, equal_trans h.equal⟩

theorem items {xs ys : List Value} (hxs : ∀ v ∈ xs, v.NamesOnce) (hys : ∀ v ∈ ys, v.NamesOnce)
    (h : itemsEqual xs ys = true) : List.Forall₂ Equals xs ys := by
  induction xs generalizing ys with
  | nil =>
    cases ys with
    | nil => exact .nil
    | cons y ys => exact nomatch h
  | cons x xs ih =>
    cases ys with
    | nil => exact nomatch h
    | cons y ys =>
      obtain ⟨hx, hxs⟩ := List.forall_mem_cons.mp hxs
      obtain ⟨hy, hys⟩ := List.forall_mem_cons.mp hys
      obtain ⟨hxy, hrest⟩ := Bool.and_eq_true_iff.mp h
      exact .cons ⟨hx, hy, hxy⟩ (ih hxs hys hrest)

theorem paired_of_isLeaf (h : a.Equals b) (hl : a.IsLeaf) : Paired a b := by
  have hequal := h.equal
  rw [equal_of_isLeaf hl] at hequal
  obtain rfl | ⟨d, e, rfl, rfl, hde⟩ := eq_or_double_of_scalarEqual hequal
  · exact .leaf hl
  · exact .doubles hde

theorem paired (h : a.Equals b) : Paired a b := by
  cases a with
  | document d =>
    obtain ⟨e, rfl, -⟩ := equal_document_iff.mp h.equal
    exact .documents h
  | scopedCode source d =>
    obtain ⟨e, rfl, -⟩ := equal_scopedCode_iff.mp h.equal
    exact .scopes
  | array xs =>
    obtain ⟨ys, rfl, hitems⟩ := equal_array_iff.mp h.equal
    have hxs := (everyPart_array_iff.mp h.left).2
    have hys := (everyPart_array_iff.mp h.right).2
    exact .arrays (items hxs hys hitems)
  | _ => exact h.paired_of_isLeaf (by simp [IsLeaf])

theorem get? {d e : Document} (h : (document d).Equals (document e)) (name : String) :
    Option.Rel Equals (d.get? name) (e.get? name) := by
  obtain ⟨hkeys, hd⟩ := namesOnce_document_iff.mp h.left
  obtain ⟨-, he⟩ := namesOnce_document_iff.mp h.right
  have hequal : d.equal e = true := h.equal
  cases hv : d.get? name with
  | some v =>
    have hm := Document.mem_of_get? hv
    obtain ⟨w, hw, hvw⟩ := (Document.equal_iff.mp hequal).2 _ hm
    rw [hw]
    exact .some ⟨hd _ hm, he _ (Document.mem_of_get? hw), hvw⟩
  | none =>
    cases hw : e.get? name with
    | none => exact .none
    | some w =>
      have hname : name ∈ e.keys := (Document.isSome_get?_iff e name).mp (by rw [hw]; rfl)
      have hsome := (Document.isSome_get?_iff d name).mpr
        (Document.keys_subset_of_equal hkeys hequal hname)
      rw [hv] at hsome
      exact nomatch hsome

theorem get?_attributesOf (h : a.Equals b) (name : String) :
    Option.Rel Equals (Document.get? (Document.attributesOf (some a)) name)
      (Document.get? (Document.attributesOf (some b)) name) := by
  cases h.paired with
  | documents hde => exact hde.get? name
  | doubles | scopes | arrays => exact .none
  | leaf hl =>
    cases a with
    | document d => exact absurd rfl (hl.1 d)
    | _ => exact .none

theorem getPath (h : a.Equals b) (p : Path) :
    Option.Rel Equals (Document.getPath (Document.attributesOf (some a)) p)
      (Document.getPath (Document.attributesOf (some b)) p) :=
  Document.rel_getAt (fun _ _ hxy => hxy.get?_attributesOf) h.get?_attributesOf p.first p.rest

theorem same_eq (h : a.Equals b) (v : Value) : a.same v = b.same v := by
  cases h.paired with
  | leaf => rfl
  | doubles hde =>
    unfold same
    cases v.quantity? with
    | none => exact h.equal_eq v
    | some y => simp only [quantity?, Quantity.compare?_eq_of_same hde]
  | documents | scopes | arrays => exact h.equal_eq v

theorem compare?_eq (h : a.Equals b) (v : Value) : a.compare? v = b.compare? v := by
  cases h.paired with
  | doubles hde =>
    unfold compare?
    cases v.quantity? with
    | none => rfl
    | some y => simp only [quantity?, Quantity.compare?_eq_of_same hde]
  | leaf | documents | scopes | arrays => rfl

end Equals

end Value

end RecordStore
