import RecordStore.Proofs.Value.Settled
import RecordStore.Proofs.Value.Substitution

namespace RecordStore

namespace Value

/-- The same value, an equal one, or a document of the same names with agreeing values. -/
inductive Agrees : Value → Value → Prop
  | refl (v : Value) : Agrees v v
  | equal {v w : Value} (h : v.Equals w) : Agrees v w
  | document {d e : Document}
      (hk : ∀ name, Document.get? d name = none ↔ Document.get? e name = none)
      (h : ∀ name v w, Document.get? d name = some v → Document.get? e name = some w → Agrees v w) :
      Agrees (.document d) (.document e)

namespace Agrees

variable {u v w : Value} {d e : Document}

theorem of_rel (h : ∀ name, Option.Rel Agrees (d.get? name) (e.get? name)) :
    Agrees (.document d) (.document e) :=
  .document (fun name => (rel_iff.mp (h name)).1) fun name => (rel_iff.mp (h name)).2

theorem exists_document (h : Agrees (.document d) v) : ∃ e, v = .document e := by
  cases h with
  | refl => exact ⟨d, rfl⟩
  | equal h =>
    obtain ⟨e, rfl, -⟩ := equal_document_iff.mp h.equal
    exact ⟨e, rfl⟩
  | @document _ e => exact ⟨e, rfl⟩

theorem get?_attributesOf (h : Agrees v w) (name : String) :
    Option.Rel Agrees (Document.get? (Document.attributesOf (some v)) name)
      (Document.get? (Document.attributesOf (some w)) name) := by
  cases h with
  | refl => exact rel_self .refl _
  | equal h =>
    obtain ⟨hk, hvalues⟩ := rel_iff.mp (h.get?_attributesOf name)
    exact rel_iff.mpr ⟨hk, fun x y hx hy => .equal (hvalues x y hx hy)⟩
  | document hk h => exact rel_iff.mpr ⟨hk name, h name⟩

theorem trans_of_equals (h : u.Equals v) (h' : Agrees v w) : Agrees u w := by
  induction h' generalizing u with
  | refl => exact .equal h
  | equal h' => exact .equal (h.trans h')
  | @document d e hk _ ih =>
    obtain ⟨c, rfl, -⟩ := equal_document_iff.mp h.symm.equal
    refine .document (fun name => (rel_iff.mp (h.get? name)).1.trans (hk name)) ?_
    intro name x z hx hz
    obtain ⟨y, hy, hxy⟩ := exists_of_rel (h.get? name) hx
    exact ih name y z hy hz hxy

theorem trans (h : Agrees u v) (h' : Agrees v w) : Agrees u w := by
  induction h generalizing w with
  | refl => exact h'
  | equal h => exact trans_of_equals h h'
  | @document c d hk _ ih =>
    obtain ⟨e, rfl⟩ := h'.exists_document
    obtain ⟨hk', hvalues⟩ := forall_and.mp fun name => rel_iff.mp (h'.get?_attributesOf name)
    refine .document (fun name => (hk name).trans (hk' name)) fun name x z hx hz => ?_
    cases hy : d.get? name with
    | none => exact absurd (hx.symm.trans ((hk name).mpr hy)) (Option.some_ne_none x)
    | some y => exact ih name x y hx hy (hvalues name y z hy hz)

theorem equal_of_equal_self (h : Agrees v w) (hv : v.NamesOnce) (hw : w.NamesOnce)
    (hself : v.equal v = true) : v.equal w = true := by
  induction h with
  | refl => exact hself
  | equal h => exact h.equal
  | @document d e hk _ ih =>
    obtain ⟨hd, hparts⟩ := namesOnce_document_iff.mp hv
    obtain ⟨he, hparts'⟩ := namesOnce_document_iff.mp hw
    have hkeys : d.keys.Perm e.keys := (List.perm_ext_iff_of_nodup hd he).mpr fun name => by
      rw [← Document.isSome_get?_iff, ← Document.isSome_get?_iff, Option.isSome_iff_ne_none,
        Option.isSome_iff_ne_none]
      exact not_congr (hk name)
    have hlength : d.length = e.length := by simpa [Document.keys] using hkeys.length_eq
    refine equal_document_iff.mpr ⟨e, rfl, Document.equal_iff.mpr ⟨hlength, fun entry hm => ?_⟩⟩
    have hget := Document.get?_of_mem hd hm
    obtain ⟨x, hx, hentry⟩ := (Document.equal_iff.mp hself).2 entry hm
    obtain rfl : entry.2 = x := Option.some.inj (hget.symm.trans hx)
    cases hy : e.get? entry.1 with
    | none => exact absurd (hget.symm.trans ((hk _).mpr hy)) (Option.some_ne_none entry.2)
    | some y =>
      have hpart := hparts' _ (Document.mem_of_get? hy)
      exact ⟨y, rfl, ih entry.1 entry.2 y hget hy (hparts entry hm) hpart hentry⟩

theorem getPath (h : Agrees v w) (p : Path) :
    Option.Rel Agrees (Document.getPath (Document.attributesOf (some v)) p)
      (Document.getPath (Document.attributesOf (some w)) p) :=
  Document.rel_getAt (fun _ _ hxy => hxy.get?_attributesOf) h.get?_attributesOf p.first p.rest

theorem insert {name : String} (h : d.get? name = some w) (hw : Agrees w v) :
    Agrees (.document d) (.document (d.insert name v)) := by
  refine of_rel fun other => ?_
  by_cases ho : other = name
  · rw [ho, h, Document.get?_insert_self]
    exact .some hw
  · rw [Document.get?_insert_of_ne d v ho]
    exact rel_self .refl _

/-- Assigning what is equal to the value in place leaves a document that agrees. -/
theorem setAt (hd : (Value.document d).NamesOnce) (hv : v.NamesOnce) {name : String}
    {rest : List String} (h : d.getAt name rest = some w) (hw : w.equal v = true) :
    Agrees (.document d) (.document (d.setAt name v rest)) := by
  induction rest generalizing d name with
  | nil =>
    have hheld : w.NamesOnce := (namesOnce_document_iff.mp hd).2 _ (Document.mem_of_get? h)
    exact insert h (.equal ⟨hheld, hv, hw⟩)
  | cons next rest ih =>
    rw [Document.getAt_cons] at h
    obtain ⟨sub, hsub⟩ | ⟨hnil, -⟩ := Document.document_or (d.get? name)
    · have hinside := ih (hd.attributesOf name) h
      rw [hsub, Document.attributesOf] at hinside
      rw [Document.setAt_cons, hsub]
      exact insert hsub hinside
    · rw [hnil, Document.getAt_nil] at h
      cases h

end Agrees

end Value

end RecordStore
