import RecordStore.Proofs.Value.Names
import RecordStore.Proofs.Value.Shape

namespace RecordStore.Document

theorem insert_of_get? {d : Document} {name : String} {v : Value} (h : get? d name = some v) :
    insert d name v = d := by
  induction d with
  | nil => cases h
  | cons e d ih =>
    obtain ⟨k, w⟩ := e
    rw [get?_cons] at h
    by_cases hk : name = k
    · rw [if_pos hk] at h
      simp [insert, hk, Option.some.inj h]
    · rw [if_neg hk] at h
      simp [insert, Ne.symm hk, ih h]

theorem erase_of_get? {d : Document} {name : String} (h : get? d name = none) :
    erase d name = d := by
  refine List.filter_eq_self.mpr fun e he => bne_iff_ne.mpr fun hk => ?_
  have hsome : (get? d name).isSome = true :=
    (isSome_get?_iff d name).mpr (hk ▸ List.mem_map_of_mem he)
  rw [h] at hsome
  cases hsome

theorem getAt_congr {d e : Document} {name : String} (h : get? d name = get? e name)
    (rest : List String) : getAt d name rest = getAt e name rest := by
  cases rest <;> simp only [getAt, h]

theorem getAt_nil (name : String) (rest : List String) : getAt [] name rest = none := by
  cases rest <;> rfl

theorem document_or (v : Option Value) :
    (∃ sub, v = some (.document sub)) ∨ attributesOf v = [] ∧ ∀ sub, v ≠ some (.document sub) := by
  unfold attributesOf
  split
  · exact .inl ⟨_, rfl⟩
  · exact .inr ⟨rfl, ‹_›⟩

theorem getAt_cons (d : Document) (name next : String) (rest : List String) :
    getAt d name (next :: rest) = getAt (attributesOf (get? d name)) next rest := by
  obtain ⟨sub, h⟩ | ⟨hnil, h⟩ := document_or (get? d name)
  · simp only [getAt, h, attributesOf]
  · rw [hnil, getAt_nil]
    simp only [getAt]

theorem getAt_append (d : Document) (name next : String) (rest more : List String) :
    getAt d name (rest ++ next :: more) = getAt (attributesOf (getAt d name rest)) next more := by
  induction rest generalizing d name with
  | nil => exact getAt_cons d name next more
  | cons follow rest ih => rw [List.cons_append, getAt_cons, ih, getAt_cons d]

theorem getPath_dotted (d : Document) (p q : String) :
    d.getPath (Path.ofString (p ++ "." ++ q)) =
      getPath (attributesOf (d.getPath (Path.ofString p))) (Path.ofString q) := by
  obtain ⟨hfirst, hrest⟩ := List.cons.inj (Path.names_append p q)
  rw [getPath, hfirst, hrest]
  exact getAt_append d _ _ _ _

theorem rel_getAt {R : Value → Value → Prop}
    (hR : ∀ v w, R v w → ∀ name,
      Option.Rel R (get? (attributesOf (some v)) name) (get? (attributesOf (some w)) name))
    {d e : Document} (h : ∀ name, Option.Rel R (d.get? name) (e.get? name)) (name : String)
    (rest : List String) : Option.Rel R (getAt d name rest) (getAt e name rest) := by
  have hbelow {a b : Option Value} (hab : Option.Rel R a b) (name : String) :
      Option.Rel R (get? (attributesOf a) name) (get? (attributesOf b) name) := by
    cases hab with
    | none => exact .none
    | some hvw => exact hR _ _ hvw name
  induction rest generalizing d e name with
  | nil => exact h name
  | cons next rest ih =>
    rw [getAt_cons, getAt_cons]
    exact ih (hbelow (h name)) next

theorem setAt_cons (d : Document) (name : String) (v : Value) (next : String)
    (rest : List String) : setAt d name v (next :: rest) =
      insert d name (.document (setAt (attributesOf (get? d name)) next v rest)) := by
  obtain ⟨sub, h⟩ | ⟨hnil, h⟩ := document_or (get? d name)
  · simp only [setAt, h, attributesOf]
  · rw [hnil]
    simp only [setAt]

theorem get?_setAt_of_ne {name other : String} (h : other ≠ name) (d : Document) (v : Value)
    (rest : List String) : get? (setAt d name v rest) other = get? d other := by
  cases rest with
  | nil => exact get?_insert_of_ne d v h
  | cons next rest => rw [setAt_cons, get?_insert_of_ne d _ h]

theorem get?_unsetAt_of_ne {name other : String} (h : other ≠ name) (d : Document)
    (rest : List String) : get? (unsetAt d name rest) other = get? d other := by
  cases rest with
  | nil => exact get?_erase_of_ne d h
  | cons next rest =>
    unfold unsetAt
    split
    · exact get?_insert_of_ne d _ h
    · rfl

theorem attributesOf_unsetAt (d : Document) (name next : String) (rest : List String) :
    attributesOf (get? (unsetAt d name (next :: rest)) name) =
      unsetAt (attributesOf (get? d name)) next rest := by
  obtain ⟨sub, h⟩ | ⟨hnil, h⟩ := document_or (get? d name)
  · simp only [unsetAt, h, get?_insert_self, attributesOf]
  · have hd : unsetAt d name (next :: rest) = d := by simp only [unsetAt]
    have hsub : unsetAt [] next rest = [] := by cases rest <;> rfl
    rw [hd, hnil, hsub]

theorem setAt_of_getAt {d : Document} {name : String} {rest : List String} {v : Value}
    (h : getAt d name rest = some v) : setAt d name v rest = d := by
  induction rest generalizing d name with
  | nil => exact insert_of_get? h
  | cons next rest ih =>
    rw [getAt_cons] at h
    obtain ⟨sub, hsub⟩ | ⟨hnil, -⟩ := document_or (get? d name)
    · rw [setAt_cons, ih h, hsub]
      exact insert_of_get? hsub
    · rw [hnil, getAt_nil] at h
      cases h

theorem unsetAt_of_getAt {d : Document} {name : String} {rest : List String}
    (h : getAt d name rest = none) : unsetAt d name rest = d := by
  induction rest generalizing d name with
  | nil => exact erase_of_get? h
  | cons next rest ih =>
    rw [getAt_cons] at h
    unfold unsetAt
    split
    · rename_i sub hsub
      have hinside : getAt sub next rest = none := by
        rw [← h, hsub]
        rfl
      rw [ih hinside]
      exact insert_of_get? hsub
    · rfl

/-- A write along paths leaves the outcome where its path ends. Every other attribute stays, and
below the first name it is the same write on what stands there. -/
structure WritesAlong (write : Document → String → List String → Document)
    (outcome : Option Value) : Prop where
  final : ∀ d name, get? (write d name []) name = outcome
  elsewhere : ∀ {name other}, other ≠ name → ∀ d rest,
    get? (write d name rest) other = get? d other
  inside : ∀ d name next rest, attributesOf (get? (write d name (next :: rest)) name) =
    write (attributesOf (get? d name)) next rest

theorem writesAlong_setAt (v : Value) :
    WritesAlong (fun d name rest => setAt d name v rest) (some v) where
  final d name := get?_insert_self d name v
  elsewhere h d rest := get?_setAt_of_ne h d v rest
  inside d name next rest := by
    rw [setAt_cons, get?_insert_self]
    rfl

theorem writesAlong_unsetAt : WritesAlong unsetAt none where
  final d name := get?_erase_self d name
  elsewhere h d rest := get?_unsetAt_of_ne h d rest
  inside d name next rest := attributesOf_unsetAt d name next rest

namespace WritesAlong

variable {write : Document → String → List String → Document} {outcome : Option Value}

theorem getAt_self (hw : WritesAlong write outcome) (d : Document) (name : String)
    (rest : List String) : getAt (write d name rest) name rest = outcome := by
  induction rest generalizing d name with
  | nil => exact hw.final d name
  | cons next rest ih =>
    rw [getAt_cons, hw.inside]
    exact ih _ next

theorem getAt_of_apart (hw : WritesAlong write outcome) (d : Document) {name other : String}
    {rest row : List String} (h : ¬ name :: rest <+: other :: row)
    (h' : ¬ other :: row <+: name :: rest) :
    getAt (write d name rest) other row = getAt d other row := by
  induction rest generalizing d name other row with
  | nil =>
    have hne : other ≠ name := by
      rintro rfl
      exact h (by simp)
    exact getAt_congr (hw.elsewhere hne d []) row
  | cons next rest ih =>
    by_cases hne : other = name
    · subst hne
      cases row with
      | nil => exact absurd (by simp) h'
      | cons follow row =>
        rw [List.cons_prefix_cons, and_iff_right rfl] at h h'
        rw [getAt_cons, hw.inside, getAt_cons d]
        exact ih _ h h'
    · exact getAt_congr (hw.elsewhere hne d _) row

end WritesAlong

theorem getPath_setPath_self (d : Document) (p : Path) (v : Value) :
    (d.setPath p v).getPath p = some v := (writesAlong_setAt v).getAt_self d p.first p.rest

theorem getPath_unsetPath_self (d : Document) (p : Path) : (d.unsetPath p).getPath p = none :=
  writesAlong_unsetAt.getAt_self d p.first p.rest

theorem getPath_setPath_of_apart {p q : String} (h : Path.Apart p q) (d : Document) (v : Value) :
    (d.setPath (Path.ofString p) v).getPath (Path.ofString q) = d.getPath (Path.ofString q) := by
  obtain ⟨hp, hq⟩ := Path.apart_iff.mp h
  exact (writesAlong_setAt v).getAt_of_apart d hp hq

theorem getPath_unsetPath_of_apart {p q : String} (h : Path.Apart p q) (d : Document) :
    (d.unsetPath (Path.ofString p)).getPath (Path.ofString q) = d.getPath (Path.ofString q) := by
  obtain ⟨hp, hq⟩ := Path.apart_iff.mp h
  exact writesAlong_unsetAt.getAt_of_apart d hp hq

end RecordStore.Document
