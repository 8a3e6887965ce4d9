import RecordStore.Proofs.Sort.Order

namespace RecordStore.SortKey

variable {keys : List SortKey} {P : Document → Prop} {d x : Document} {ds es : List Document}

def ties (keys : List SortKey) (a b : Document) : Bool := compareAll keys a b == .eq

theorem sort_eq_foldr (keys : List SortKey) (ds : List Document) :
    sort keys ds = (ds.reverse.foldr (insertDownwards keys) []).reverse := by
  rw [sort, List.foldr_reverse]

theorem perm_insertDownwards (keys : List SortKey) (d : Document) (es : List Document) :
    (insertDownwards keys d es).Perm (d :: es) := by
  induction es with
  | nil => exact .refl _
  | cons e es ih =>
    rw [insertDownwards]
    split
    · exact (ih.cons e).trans (.swap d e es)
    · exact .refl _

theorem perm_foldr (keys : List SortKey) (ds : List Document) :
    (ds.foldr (insertDownwards keys) []).Perm ds := by
  induction ds with
  | nil => exact .refl _
  | cons d ds ih => exact (perm_insertDownwards keys d _).trans (ih.cons d)

theorem forall_mem_foldr (h : ∀ d ∈ ds, P d) :
    ∀ e ∈ ds.foldr (insertDownwards keys) [], P e :=
  fun e he => h e ((perm_foldr keys ds).mem_iff.mp he)

theorem perm_sort (keys : List SortKey) (ds : List Document) : (sort keys ds).Perm ds := by
  rw [sort_eq_foldr]
  exact (List.reverse_perm _).trans ((perm_foldr keys _).trans (List.reverse_perm ds))

theorem length_sort (keys : List SortKey) (ds : List Document) :
    (sort keys ds).length = ds.length := (perm_sort keys ds).length_eq

/-- The order of the records of which `P` holds is a total preorder. -/
def Orders (keys : List SortKey) (P : Document → Prop) : Prop :=
  Std.TransCmp fun a b : { d // P d } => compareAll keys a.1 b.1

section Orders

variable (ho : Orders keys P)

include ho

theorem Orders.trans {a b c : Document} (ha : P a) (hb : P b) (hc : P c)
    (hab : compareAll keys a b ≠ .gt) (hbc : compareAll keys b c ≠ .gt) :
    compareAll keys a c ≠ .gt := by
  have h := ho.isLE_trans (a := ⟨a, ha⟩) (b := ⟨b, hb⟩) (c := ⟨c, hc⟩)
  simp only [Ordering.isLE_iff_ne_gt] at h
  exact h hab hbc

theorem Orders.eq_of_ties {a b c : Document} (ha : P a) (hb : P b) (hc : P c)
    (hba : ties keys b a = true) (hbc : ties keys b c = true) : compareAll keys a c = .eq := by
  have hab : compareAll keys a b = .eq := by
    rw [compareAll_swap keys b a, beq_iff_eq.mp hba]
    rfl
  exact @Std.TransCmp.eq_trans _ _ ho ⟨a, ha⟩ ⟨b, hb⟩ ⟨c, hc⟩ hab (beq_iff_eq.mp hbc)

theorem pairwise_insertDownwards (hd : P d) (hes : ∀ e ∈ es, P e)
    (h : es.Pairwise fun a b => compareAll keys b a ≠ .gt) :
    (insertDownwards keys d es).Pairwise fun a b => compareAll keys b a ≠ .gt := by
  induction es with
  | nil => exact List.pairwise_singleton _ _
  | cons e es ih =>
    obtain ⟨he, hrest⟩ := List.forall_mem_cons.mp hes
    obtain ⟨hfirst, hsorted⟩ := List.pairwise_cons.mp h
    rw [insertDownwards]
    split
    · rename_i hlt
      refine List.pairwise_cons.mpr ⟨fun a ha => ?_, ih hrest hsorted⟩
      obtain rfl | ha := List.mem_cons.mp ((perm_insertDownwards keys d es).mem_iff.mp ha)
      · rw [hlt]
        decide
      · exact hfirst a ha
    · rename_i hlt
      have hed : compareAll keys e d ≠ .gt := by
        rw [compareAll_swap keys d e]
        exact fun hgt => hlt (Ordering.swap_eq_gt.mp hgt)
      refine List.pairwise_cons.mpr ⟨fun a ha => ?_, h⟩
      obtain rfl | ha := List.mem_cons.mp ha
      · exact hed
      · exact ho.trans (hrest a ha) he hd (hfirst a ha) hed

theorem filter_insertDownwards (hx : P x) (hd : P d) (hes : ∀ e ∈ es, P e) :
    (insertDownwards keys d es).filter (ties keys x) = (d :: es).filter (ties keys x) := by
  induction es with
  | nil => rfl
  | cons e es ih =>
    obtain ⟨he, hrest⟩ := List.forall_mem_cons.mp hes
    rw [insertDownwards]
    split
    · rename_i hlt
      -- the new record only passes records that it does not tie with
      have hnot : ¬ (ties keys x d = true ∧ ties keys x e = true) := by
        rintro ⟨htd, hte⟩
        rw [ho.eq_of_ties hd hx he htd hte] at hlt
        cases hlt
      rw [List.filter_cons, ih hrest, List.filter_cons, List.filter_cons, List.filter_cons]
      cases hte : ties keys x e with
      | false => rfl
      | true => rw [if_neg fun htd => hnot ⟨htd, hte⟩, if_neg fun htd => hnot ⟨htd, hte⟩]
    · rfl

theorem pairwise_foldr (hds : ∀ d ∈ ds, P d) :
    (ds.foldr (insertDownwards keys) []).Pairwise fun a b => compareAll keys b a ≠ .gt := by
  induction ds with
  | nil => exact .nil
  | cons d ds ih =>
    obtain ⟨hd, hrest⟩ := List.forall_mem_cons.mp hds
    exact pairwise_insertDownwards ho hd (forall_mem_foldr hrest) (ih hrest)

theorem filter_foldr (hx : P x) (hds : ∀ d ∈ ds, P d) :
    (ds.foldr (insertDownwards keys) []).filter (ties keys x) = ds.filter (ties keys x) := by
  induction ds with
  | nil => rfl
  | cons d ds ih =>
    obtain ⟨hd, hrest⟩ := List.forall_mem_cons.mp hds
    rw [List.foldr_cons, filter_insertDownwards ho hx hd (forall_mem_foldr hrest),
      List.filter_cons, ih hrest, ← List.filter_cons]

theorem pairwise_sort (hds : ∀ d ∈ ds, P d) :
    (sort keys ds).Pairwise fun a b => compareAll keys a b ≠ .gt := by
  rw [sort_eq_foldr, List.pairwise_reverse]
  exact pairwise_foldr ho fun d hd => hds d (List.mem_reverse.mp hd)

/-- Sorting is stable: the records that tie with one of them come in the order they had. -/
theorem filter_sort (hx : P x) (hds : ∀ d ∈ ds, P d) :
    (sort keys ds).filter (ties keys x) = ds.filter (ties keys x) := by
  rw [sort_eq_foldr, List.filter_reverse,
    filter_foldr ho hx fun d hd => hds d (List.mem_reverse.mp hd), List.filter_reverse,
    List.reverse_reverse]

end Orders

end RecordStore.SortKey
