import RecordStore.Value.Basic

namespace RecordStore

theorem rel_iff {α β : Type} {R : α → β → Prop} {a : Option α} {b : Option β} :
    Option.Rel R a b ↔ (a = none ↔ b = none) ∧ ∀ x y, a = some x → b = some y → R x y := by
  cases a with
  | none =>
    cases b with
    | none => exact iff_of_true .none ⟨iff_of_true rfl rfl, fun _ _ h => nomatch h⟩
    | some y => exact iff_of_false (fun h => nomatch h) fun h => nomatch h.1.mp rfl
  | some x =>
    cases b with
    | none => exact iff_of_false (fun h => nomatch h) fun h => nomatch h.1.mpr rfl
    | some y =>
      constructor
      · rintro (_ | hxy)
        refine ⟨by simp, fun x' y' hx hy => ?_⟩
        rwa [← Option.some.inj hx, ← Option.some.inj hy]
      · exact fun h => .some (h.2 x y rfl rfl)

theorem rel_self {α : Type} {R : α → α → Prop} (hR : ∀ x, R x x) (a : Option α) :
    Option.Rel R a a := by
  cases a with
  | none => exact .none
  | some x => exact .some (hR x)

theorem exists_of_rel {α β : Type} {R : α → β → Prop} {a : Option α} {b : Option β}
    (h : Option.Rel R a b) {x : α} (hx : a = some x) : ∃ y, b = some y ∧ R x y := by
  subst hx
  cases h with
  | some hxy => exact ⟨_, rfl, hxy⟩

theorem bind_eq_ok {ε α β : Type} {x : Except ε α} {f : α → Except ε β} {b : β} :
    (x >>= f) = .ok b ↔ ∃ a, x = .ok a ∧ f a = .ok b := by
  cases x <;> simp [bind, Except.bind]

theorem map_eq_ok {ε α β : Type} {x : Except ε α} {f : α → β} {b : β} :
    x.map f = .ok b ↔ ∃ a, x = .ok a ∧ f a = b := by
  cases x <;> simp [Except.map]

namespace Value

/-- Neither a document nor an array. -/
def IsPlain (v : Value) : Prop := (∀ d, v ≠ .document d) ∧ ∀ items, v ≠ .array items

theorem isPlain_or (v : Value) :
    (∃ d, v = document d) ∨ (∃ items, v = array items) ∨ v.IsPlain := by
  cases v with
  | document d => exact .inl ⟨d, rfl⟩
  | array items => exact .inr (.inl ⟨items, rfl⟩)
  | _ => exact .inr (.inr ⟨fun _ h => (nomatch h), fun _ h => (nomatch h)⟩)

/-- Equality but for the order of attributes, at every depth. Everything else agrees exactly. -/
inductive Alike : Value → Value → Prop
  | refl (v : Value) : Alike v v
  | array {xs ys : List Value} (hl : xs.length = ys.length)
      (h : ∀ (i : Nat) v w, xs[i]? = some v → ys[i]? = some w → Alike v w) :
      Alike (.array xs) (.array ys)
  | document {d e : Document}
      (hk : ∀ name, Document.get? d name = none ↔ Document.get? e name = none)
      (h : ∀ name v w, Document.get? d name = some v → Document.get? e name = some w → Alike v w) :
      Alike (.document d) (.document e)

end Value

def Document.Alike (d e : Document) : Prop := Value.Alike (.document d) (.document e)

theorem Document.Alike.get?_eq_none_iff {d e : Document} (h : d.Alike e) (name : String) :
    d.get? name = none ↔ e.get? name = none := by
  cases h with
  | refl => exact Iff.rfl
  | document hk _ => exact hk name

theorem Document.alike_of_rel {d e : Document}
    (h : ∀ name, Option.Rel Value.Alike (d.get? name) (e.get? name)) : d.Alike e :=
  .document (fun name => (rel_iff.mp (h name)).1) fun name => (rel_iff.mp (h name)).2

/-- The attributes below a place: none unless a document stands there. -/
def Document.attributesOf : Option Value → Document
  | some (.document d) => d
  | _ => []

end RecordStore
