import RecordStore.Proofs.Sort.Order
import RecordStore.Proofs.Value.Walk

namespace RecordStore

theorem Direction.ofValue?_toValue (d : Direction) : ofValue? d.toValue = some d := by
  cases d <;> rfl

theorem Direction.orient_injective {d e : Direction} (h : d.orient .lt = e.orient .lt) : d = e := by
  revert h
  cases d <;> cases e <;> decide

theorem Path.names_injective {p q : String} (h : (ofString p).names = (ofString q).names) :
    p = q := by
  have hprefix : (ofString p).names <+: (ofString q).names := h ▸ List.prefix_rfl
  obtain hpq | ⟨rest, rfl⟩ := names_prefix_iff.mp hprefix
  · exact hpq
  · have hlength := congrArg List.length h
    rw [names_append, List.length_append] at hlength
    simp [names] at hlength

namespace SortKey

def assign : List SortKey → SortKey → List SortKey
  | [], k => [k]
  | l :: keys, k => if l.field = k.field then k :: keys else l :: assign keys k

/-- One key for each field: later keys go to the place of the first one for their field. -/
def merged (keys : List SortKey) : List SortKey := keys.foldl assign []

def entries (keys : List SortKey) : Document := keys.map fun k => (k.field, k.direction.toValue)

theorem entries_cons (k : SortKey) (keys : List SortKey) :
    entries (k :: keys) = (k.field, k.direction.toValue) :: entries keys := rfl

theorem ofDocument_entries (keys : List SortKey) : ofDocument (entries keys) = .ok keys := by
  induction keys with
  | nil => rfl
  | cons k keys ih =>
    rw [entries_cons, ofDocument, Direction.ofValue?_toValue, ih]
    rfl

theorem entries_assign (keys : List SortKey) (k : SortKey) :
    entries (assign keys k) = Document.insert (entries keys) k.field k.direction.toValue := by
  induction keys with
  | nil => rfl
  | cons l keys ih =>
    rw [assign, entries_cons, Document.insert]
    by_cases h : l.field = k.field
    · rw [if_pos h, if_pos h, entries_cons, h]
    · rw [if_neg h, if_neg h, entries_cons, ih]

theorem toDocument_eq (keys : List SortKey) : toDocument keys = entries (merged keys) := by
  suffices h : ∀ done : List SortKey, (keys.map fun k => (k.field, k.direction.toValue)).foldl
      (fun d e => Document.insert d e.1 e.2) (entries done) = entries (keys.foldl assign done) from
    h []
  induction keys with
  | nil => exact fun _ => rfl
  | cons k keys ih =>
    intro done
    rw [List.map_cons, List.foldl_cons, ← entries_assign, ih, List.foldl_cons]

/-- Whatever the keys, the document that stands for them is read again. -/
theorem ofDocument_toDocument (keys : List SortKey) :
    ofDocument (toDocument keys) = .ok (merged keys) := by
  rw [toDocument_eq, ofDocument_entries]

theorem nodup_fields_merged (keys : List SortKey) : ((merged keys).map field).Nodup := by
  have h := Document.nodup_keys_ofList (keys.map fun k => (k.field, k.direction.toValue))
  change (toDocument keys).keys.Nodup at h
  rw [toDocument_eq, Document.keys, entries, List.map_map] at h
  exact h

section Merged

variable (p : String → Bool) (name : String)

theorem find?_fields_assign (keys : List SortKey) (k : SortKey) :
    ((assign keys k).map field).find? p = (keys.map field ++ [k.field]).find? p := by
  induction keys with
  | nil => rfl
  | cons l keys ih =>
    rw [assign]
    split
    case isTrue h =>
      rw [List.map_cons, List.map_cons, ← h]
      cases hp : p l.field <;> simp [List.find?_append, hp]
    case isFalse h =>
      rw [List.map_cons, List.map_cons, List.cons_append, List.find?_cons, List.find?_cons, ih]

theorem find?_fields_merged (keys : List SortKey) :
    ((merged keys).map field).find? p = (keys.map field).find? p := by
  suffices h : ∀ done : List SortKey,
      ((keys.foldl assign done).map field).find? p = (done.map field ++ keys.map field).find? p from
    h []
  induction keys with
  | nil => simp
  | cons k keys ih =>
    intro done
    rw [List.foldl_cons, ih, List.find?_append, find?_fields_assign, ← List.find?_append,
      List.append_assoc, List.map_cons, List.singleton_append]

theorem find?_assign (keys : List SortKey) (k : SortKey) :
    (assign keys k).find? (·.field == name) =
      if k.field = name then some k else keys.find? (·.field == name) := by
  induction keys with
  | nil => by_cases h : k.field = name <;> simp [assign, h]
  | cons l keys ih =>
    rw [assign]
    by_cases h : l.field = k.field
    · by_cases hk : k.field = name <;> simp [h, hk]
    · rw [if_neg h, List.find?_cons, List.find?_cons, ih]
      by_cases hk : k.field = name
      · have hl : (l.field == name) = false := beq_eq_false_iff_ne.mpr (hk ▸ h)
        simp only [hl, hk, if_true]
      · simp only [hk, if_false]

theorem find?_merged (keys : List SortKey) :
    (merged keys).find? (·.field == name) = keys.reverse.find? (·.field == name) := by
  suffices h : ∀ done : List SortKey, (keys.foldl assign done).find? (·.field == name) =
      (keys.reverse ++ done).find? (·.field == name) by
    rw [merged, h, List.append_nil]
  induction keys with
  | nil => exact fun _ => rfl
  | cons k keys ih =>
    intro done
    rw [List.foldl_cons, ih, List.reverse_cons, List.append_assoc, List.find?_append,
      List.find?_append, find?_assign]
    by_cases hk : k.field = name <;> simp [hk]

end Merged

def tells (a b : Document) (name : String) : Bool :=
  compareFields (a.getPath (Path.ofString name)) (b.getPath (Path.ofString name)) != .eq

theorem compare_eq_eq_iff_tells {k : SortKey} {a b : Document} :
    k.compare a b = .eq ↔ tells a b k.field = false := by
  rw [compare, tells, bne_eq_false_iff_eq]
  generalize compareFields _ _ = o
  cases k.direction <;> cases o <;> decide

theorem compareAll_eq (keys : List SortKey) (a b : Document) : compareAll keys a b =
    (keys.find? fun k => tells a b k.field).elim .eq (·.compare a b) := by
  induction keys with
  | nil => rfl
  | cons k keys ih =>
    rw [compareAll, List.find?_cons, ih]
    cases h : tells a b k.field with
    | false =>
      rw [compare_eq_eq_iff_tells.mpr h]
      rfl
    | true =>
      have hne : k.compare a b ≠ .eq := fun he => by
        simp [compare_eq_eq_iff_tells.mp he] at h
      cases hk : k.compare a b with
      | eq => exact absurd hk hne
      | lt | gt => simp [hk]

theorem find?_field_eq_bind (p : String → Bool) (keys : List SortKey) :
    (keys.find? fun k => p k.field) =
      ((keys.map field).find? p).bind fun name => keys.find? (·.field == name) := by
  induction keys with
  | nil => rfl
  | cons k keys ih =>
    rw [List.map_cons, List.find?_cons, List.find?_cons]
    cases hk : p k.field with
    | true => simp
    | false =>
      simp only [ih]
      cases h : (keys.map field).find? p with
      | none => rfl
      | some name =>
        have hp : p name = true := List.find?_some h
        have hne : (k.field == name) = false := beq_eq_false_iff_ne.mpr fun he => by
          simp [he, hp] at hk
        simp [List.find?_cons, hne]

theorem compareAll_congr {keys others : List SortKey} {a b : Document}
    (hfields : (keys.map field).find? (tells a b) = (others.map field).find? (tells a b))
    (hkeys : ∀ name, keys.find? (·.field == name) = others.find? (·.field == name)) :
    compareAll keys a b = compareAll others a b := by
  rw [compareAll_eq, compareAll_eq, find?_field_eq_bind, find?_field_eq_bind, hfields]
  simp only [hkeys]

def lone (name : String) (n : Int32) : Document :=
  Document.setPath [] (Path.ofString name) (.int32 n)

/-- Two such documents differ where their numbers are and nowhere else: on the way there both hold
documents, of which none is above the other, and off it nothing. -/
theorem compareFields_setAt (m n : Int32) (name : String) (rest : List String) (other : String)
    (more : List String) :
    compareFields (Document.getAt (Document.setAt [] name (.int32 m) rest) other more)
        (Document.getAt (Document.setAt [] name (.int32 n) rest) other more) =
      if other :: more = name :: rest then (Value.int32 m).compare (.int32 n) else .eq := by
  by_cases h : other = name
  · subst h
    cases rest with
    | nil =>
      cases more <;> simp [Document.setAt, Document.insert, Document.getAt, Document.get?_cons,
        compareFields]
    | cons next rest =>
      cases more with
      | nil =>
        -- on the way both hold documents, of which none is above the other
        rw [if_neg (by simp)]
        simp only [Document.setAt, Document.get?_nil, Document.insert, Document.getAt,
          Document.get?_cons, if_true]
        rfl
      | cons following more =>
        have hnext := compareFields_setAt m n next rest following more
        simpa [Document.setAt, Document.insert, Document.getAt, Document.get?_cons] using hnext
  -- off the path neither document has anything
  · have habsent (v : Value) : Document.getAt (Document.setAt [] name v rest) other more = none :=
      (Document.getAt_congr (Document.get?_setAt_of_ne h [] v rest) more).trans
        (Document.getAt_nil other more)
    rw [habsent, habsent, if_neg (by simp [h])]
    rfl

theorem compareFields_lone (name other : String) :
    compareFields ((lone name 1).getPath (Path.ofString other))
        ((lone name 2).getPath (Path.ofString other)) = if other = name then .lt else .eq := by
  have h := compareFields_setAt 1 2 (Path.ofString name).first (Path.ofString name).rest
    (Path.ofString other).first (Path.ofString other).rest
  by_cases ho : other = name
  · rw [if_pos (by rw [ho])] at h
    rw [if_pos ho]
    exact h
  · have hnames : ¬ (Path.ofString other).first :: (Path.ofString other).rest =
        (Path.ofString name).first :: (Path.ofString name).rest := fun he =>
      ho (Path.names_injective he)
    rw [if_neg hnames] at h
    rw [if_neg ho]
    exact h

theorem tells_lone (name other : String) :
    tells (lone name 1) (lone name 2) other = (other == name) := by
  rw [tells, compareFields_lone]
  by_cases h : other = name <;> simp [h]

theorem eq_of_compare_lone {name : String} {k l : SortKey} (hk : k.field = name)
    (hl : l.field = name)
    (h : k.compare (lone name 1) (lone name 2) = l.compare (lone name 1) (lone name 2)) :
    k = l := by
  rw [compare, compare, hk, hl, compareFields_lone, if_pos rfl] at h
  cases k
  cases l
  rw [SortKey.mk.injEq]
  exact ⟨hk.trans hl.symm, Direction.orient_injective h⟩

/-- Reading the merged keys orders all records as before if and only if the first and the last key
for every field agree. -/
theorem compareAll_merged_iff (keys : List SortKey) :
    (∀ a b, compareAll (merged keys) a b = compareAll keys a b) ↔
      ∀ name, keys.find? (·.field == name) = keys.reverse.find? (·.field == name) := by
  constructor
  · intro h name
    have hlone := h (lone name 1) (lone name 2)
    simp only [compareAll_eq, tells_lone, find?_merged] at hlone
    cases hfirst : keys.find? (·.field == name) with
    | none =>
      rw [List.find?_eq_none] at hfirst
      exact (List.find?_eq_none.mpr fun k hk => hfirst k (List.mem_reverse.mp hk)).symm
    | some k =>
      have hk : k ∈ keys.reverse := List.mem_reverse.mpr (List.mem_of_find?_eq_some hfirst)
      have hfield := List.find?_some hfirst
      cases hlast : keys.reverse.find? (·.field == name) with
      | none => exact absurd hfield (List.find?_eq_none.mp hlast k hk)
      | some l =>
        have hother := List.find?_some hlast
        rw [hfirst, hlast] at hlone
        rw [eq_of_compare_lone (eq_of_beq hother) (eq_of_beq hfield) hlone]
  · intro h a b
    exact compareAll_congr (find?_fields_merged (tells a b) keys) fun name =>
      (find?_merged name keys).trans (h name).symm

end SortKey

end RecordStore
