import RecordStore.Number.Decimal

namespace RecordStore

abbrev ObjectId := BitVec 96

inductive Value where
  | null
  | undefined
  | minKey
  | maxKey
  | boolean (b : Bool)
  | int32 (n : Int32)
  | int64 (n : Int64)
  | double (d : Double)
  | decimal (d : Decimal)
  | string (s : String)
  | symbol (s : String)
  | code (source : String)
  | scopedCode (source : String) (scope : List (String × Value))
  | document (entries : List (String × Value))
  | array (items : List Value)
  | binary (subtype : UInt8) (bytes : List UInt8)
  | objectId (id : ObjectId)
  | dateTime (millis : Int64)
  | timestamp (time increment : UInt32)
  | regex (pattern options : String)
  | dbPointer (scope : String) (id : ObjectId)
deriving Repr, Inhabited

abbrev Document := List (String × Value)

namespace Value

def isUndefined : Value → Bool
  | undefined => true
  | _ => false

def isNull : Value → Bool
  | null => true
  | _ => false

def isArray : Value → Bool
  | array _ => true
  | _ => false

end Value

namespace Document

def get? (d : Document) (name : String) : Option Value := List.lookup name d

def keys (d : Document) : List String := d.map Prod.fst

/-- Assigns an attribute: in place if it is present, else at the end. -/
def insert : Document → String → Value → Document
  | [], name, v => [(name, v)]
  | (k, w) :: d, name, v => if k = name then (k, v) :: d else (k, w) :: insert d name v

def erase (d : Document) (name : String) : Document := d.filter fun e => e.1 != name

def ofList (entries : List (String × Value)) : Document :=
  entries.foldl (fun d e => insert d e.1 e.2) []

@[simp] theorem get?_nil (name : String) : get? [] name = none := rfl

theorem get?_cons (k name : String) (v : Value) (d : Document) :
    get? ((k, v) :: d) name = if name = k then some v else get? d name := by
  unfold get?
  rw [List.lookup_cons]
  by_cases h : name = k
  · simp [h]
  · simp [h, beq_eq_false_iff_ne.mpr h]

theorem isSome_get?_iff (d : Document) (name : String) :
    (get? d name).isSome = true ↔ name ∈ keys d := by
  induction d with
  | nil => simp [keys]
  | cons e d ih =>
    obtain ⟨k, v⟩ := e
    simp only [keys] at ih ⊢
    by_cases h : name = k <;> simp [get?_cons, h, ih]

@[simp] theorem get?_insert_self (d : Document) (name : String) (v : Value) :
    get? (insert d name v) name = some v := by
  induction d with
  | nil => simp [insert, get?_cons]
  | cons e d ih =>
    obtain ⟨k, w⟩ := e
    by_cases h : k = name
    · simp [insert, h, get?_cons]
    · simp [insert, h, get?_cons, Ne.symm h, ih]

theorem get?_insert_of_ne (d : Document) {name other : String} (v : Value) (h : other ≠ name) :
    get? (insert d name v) other = get? d other := by
  induction d with
  | nil => simp [insert, get?_cons, h]
  | cons e d ih =>
    obtain ⟨k, w⟩ := e
    by_cases hk : k = name
    · subst hk; simp [insert, get?_cons, h]
    · simp [insert, hk, get?_cons, ih]

@[simp] theorem get?_erase_self (d : Document) (name : String) : get? (erase d name) name = none := by
  induction d with
  | nil => rfl
  | cons e d ih =>
    obtain ⟨k, w⟩ := e
    by_cases h : k = name
    · simpa [erase, h] using ih
    · simpa [erase, h, get?_cons, Ne.symm h] using ih

theorem get?_erase_of_ne (d : Document) {name other : String} (h : other ≠ name) :
    get? (erase d name) other = get? d other := by
  induction d with
  | nil => rfl
  | cons e d ih =>
    obtain ⟨k, w⟩ := e
    by_cases hk : k = name
    · subst hk; simpa [erase, get?_cons, h] using ih
    · by_cases ho : other = k
      · simp [erase, hk, get?_cons, ho]
      · simpa [erase, hk, get?_cons, ho] using ih

theorem mem_keys_insert (d : Document) (name other : String) (v : Value) :
    other ∈ keys (insert d name v) ↔ other = name ∨ other ∈ keys d := by
  induction d with
  | nil => simp [insert, keys]
  | cons e d ih =>
    obtain ⟨k, w⟩ := e
    simp only [keys] at ih ⊢
    by_cases h : k = name
    · subst h; simp [insert]
    · simp only [insert, h, if_false, List.map_cons, List.mem_cons, ih]
      exact or_left_comm

theorem nodup_keys_insert {d : Document} (name : String) (v : Value) (h : d.keys.Nodup) :
    (d.insert name v).keys.Nodup := by
  induction d with
  | nil => simp [insert, keys]
  | cons e d ih =>
    obtain ⟨k, w⟩ := e
    obtain ⟨hk, hd⟩ := List.nodup_cons.mp h
    by_cases hkn : k = name
    · simpa [insert, hkn, keys] using h
    · rw [insert, if_neg hkn]
      refine List.nodup_cons.mpr ⟨fun hm => ?_, ih hd⟩
      rcases (mem_keys_insert d name k v).mp hm with rfl | hm
      · exact hkn rfl
      · exact hk hm

theorem nodup_keys_foldl_insert (entries : List (String × Value)) {d : Document}
    (h : d.keys.Nodup) : (entries.foldl (fun d e => insert d e.1 e.2) d).keys.Nodup := by
  induction entries generalizing d with
  | nil => exact h
  | cons e entries ih => exact ih (nodup_keys_insert e.1 e.2 h)

theorem nodup_keys_ofList (entries : List (String × Value)) : (ofList entries).keys.Nodup :=
  nodup_keys_foldl_insert entries List.nodup_nil

theorem insert_of_not_mem {d : Document} {name : String} (h : name ∉ d.keys) (v : Value) :
    insert d name v = d ++ [(name, v)] := by
  induction d with
  | nil => rfl
  | cons e d ih =>
    obtain ⟨hk, hd⟩ := not_or.mp fun hm => h (List.mem_cons.mpr hm)
    rw [insert, if_neg (Ne.symm hk), ih hd, List.cons_append]

theorem ofList_of_nodup {entries : List (String × Value)} (h : (entries.map Prod.fst).Nodup) :
    ofList entries = entries := by
  have hfold : ∀ front : Document, (front ++ entries).keys.Nodup →
      entries.foldl (fun d e => insert d e.1 e.2) front = front ++ entries := by
    clear h
    induction entries with
    | nil => exact fun front _ => (List.append_nil front).symm
    | cons e entries ih =>
      intro front hfront
      have hsplit : front ++ e :: entries = front ++ [e] ++ entries := by simp
      have hnew : e.1 ∉ front.keys := by
        rw [keys, List.map_append, List.nodup_append] at hfront
        exact fun hm => hfront.2.2 e.1 hm e.1 List.mem_cons_self rfl
      rw [List.foldl_cons, insert_of_not_mem hnew]
      rw [hsplit] at hfront ⊢
      exact ih _ hfront
  exact hfold [] h

end Document

end RecordStore
