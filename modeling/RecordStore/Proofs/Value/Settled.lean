import RecordStore.Proofs.Value.Equality
import RecordStore.Proofs.Value.Shape
import RecordStore.Proofs.Value.Walk

namespace RecordStore

/-- The second value is the first one or stands in it, as an attribute of a document or an item of
an array, at any depth. -/
inductive Value.Contains : Value → Value → Prop
  | self (v : Value) : Contains v v
  | inDocument {d : Document} {name : String} {v w : Value} (h : (name, v) ∈ d)
      (hw : Contains v w) : Contains (.document d) w
  | inArray {items : List Value} {v w : Value} (h : v ∈ items) (hw : Contains v w) :
      Contains (.array items) w

def Value.Settled (v : Value) : Prop := ¬ v.Contains .undefined

def Document.Settled (d : Document) : Prop := ∀ e ∈ d, e.2.Settled

namespace Value

theorem settled_document_iff {d : Document} : (document d).Settled ↔ d.Settled := by
  constructor
  · exact fun h e he hc => h (.inDocument he hc)
  · intro h hc
    cases hc with
    | inDocument he hw => exact h _ he hw

theorem settled_array_iff {items : List Value} :
    (array items).Settled ↔ ∀ v ∈ items, v.Settled := by
  constructor
  · exact fun h v hv hc => h (.inArray hv hc)
  · intro h hc
    cases hc with
    | inArray hv hw => exact h _ hv hw

theorem IsPlain.settled {v : Value} (hv : v.IsPlain) (h : v ≠ undefined) : v.Settled := by
  intro hc
  cases hc with
  | self => exact h rfl
  | inDocument => exact hv.1 _ rfl
  | inArray => exact hv.2 _ rfl

theorem Settled.not_isUndefined {v : Value} (h : v.Settled) : ¬ v.isUndefined = true := by
  intro hv
  cases v with
  | undefined => exact h (.self _)
  | _ => cases hv

end Value

namespace Document

theorem forall_insert {P : Value → Prop} {d : Document} {v : Value} (hd : ∀ e ∈ d, P e.2)
    (hv : P v) (name : String) : ∀ e ∈ d.insert name v, P e.2 := by
  induction d with
  | nil => exact List.forall_mem_singleton.mpr hv
  | cons e d ih =>
    obtain ⟨k, w⟩ := e
    obtain ⟨hw, hrest⟩ := List.forall_mem_cons.mp hd
    rw [insert]
    split
    · exact List.forall_mem_cons.mpr ⟨hv, hrest⟩
    · exact List.forall_mem_cons.mpr ⟨hw, ih hrest⟩

variable {d : Document} {v : Value}

theorem settled_nil : Settled [] := fun _ he => nomatch he

theorem Settled.of_get? (hd : d.Settled) {name : String} (h : d.get? name = some v) :
    v.Settled := hd (name, v) (mem_of_get? h)

theorem Settled.attributesOf (hd : d.Settled) (name : String) :
    Settled (attributesOf (d.get? name)) := by
  obtain ⟨sub, h⟩ | ⟨hnil, -⟩ := document_or (d.get? name)
  · rw [h]
    exact Value.settled_document_iff.mp (hd.of_get? h)
  · rw [hnil]
    exact settled_nil

theorem Settled.insert (hd : d.Settled) (hv : v.Settled) (name : String) :
    (d.insert name v).Settled := forall_insert hd hv name

theorem Settled.setAt (hd : d.Settled) (hv : v.Settled) (name : String) (rest : List String) :
    (setAt d name v rest).Settled := by
  induction rest generalizing d name with
  | nil => exact hd.insert hv name
  | cons next rest ih =>
    rw [setAt_cons]
    exact hd.insert (Value.settled_document_iff.mpr (ih (hd.attributesOf name) next)) name

theorem Settled.unsetAt (hd : d.Settled) (name : String) (rest : List String) :
    (unsetAt d name rest).Settled := by
  induction rest generalizing d name with
  | nil => exact fun e he => hd e (List.mem_filter.mp he).1
  | cons next rest ih =>
    unfold Document.unsetAt
    split
    · rename_i sub h
      have hsub : Settled sub := Value.settled_document_iff.mp (hd.of_get? h)
      exact hd.insert (Value.settled_document_iff.mpr (ih hsub next)) name
    · exact hd

end Document

namespace Value.NamesOnce

variable {d : Document} {v : Value}

theorem attributesOf (hd : (document d).NamesOnce) (name : String) :
    (document (Document.attributesOf (d.get? name))).NamesOnce := by
  obtain ⟨sub, h⟩ | ⟨hnil, -⟩ := Document.document_or (d.get? name)
  · rw [h]
    exact (namesOnce_document_iff.mp hd).2 _ (Document.mem_of_get? h)
  · rw [hnil]
    rfl

theorem insert (hd : (document d).NamesOnce) (hv : v.NamesOnce) (name : String) :
    (document (d.insert name v)).NamesOnce := by
  obtain ⟨hkeys, hparts⟩ := namesOnce_document_iff.mp hd
  exact namesOnce_document_iff.mpr
    ⟨Document.nodup_keys_insert name v hkeys, Document.forall_insert hparts hv name⟩

theorem setAt (hd : (document d).NamesOnce) (hv : v.NamesOnce) (name : String)
    (rest : List String) : (document (d.setAt name v rest)).NamesOnce := by
  induction rest generalizing d name with
  | nil => exact hd.insert hv name
  | cons next rest ih =>
    rw [Document.setAt_cons]
    exact hd.insert (ih (hd.attributesOf name) next) name

theorem getAt (hd : (document d).NamesOnce) {name : String} {rest : List String}
    (h : d.getAt name rest = some v) : v.NamesOnce := by
  induction rest generalizing d name with
  | nil => exact (namesOnce_document_iff.mp hd).2 _ (Document.mem_of_get? h)
  | cons next rest ih =>
    rw [Document.getAt_cons] at h
    exact ih (hd.attributesOf name) h

end Value.NamesOnce

end RecordStore
