import RecordStore.Proofs.Value.Entries
import RecordStore.Value.Path

namespace RecordStore

namespace Path

/-- A text that can name one attribute: it is not empty and holds no point. -/
def IsName (s : String) : Prop := s ≠ "" ∧ '.' ∉ s.toList

instance (s : String) : Decidable (IsName s) := inferInstanceAs (Decidable (_ ∧ _))

def rows (ps : List String) : List (List String) := ps.map fun p => (ofString p).names

theorem rows_append (ps qs : List String) : rows (ps ++ qs) = rows ps ++ rows qs := List.map_append

theorem mem_rows {ps : List String} {row : List String} :
    row ∈ rows ps ↔ ∃ p ∈ ps, (ofString p).names = row := List.mem_map

theorem splitPoints_append (as bs : List Char) :
    splitPoints (as ++ '.' :: bs) =
      ((splitPoints as).1, (splitPoints as).2 ++ (splitPoints bs).1 :: (splitPoints bs).2) := by
  induction as with
  | nil => simp [splitPoints]
  | cons c as ih => by_cases h : c = '.' <;> simp [splitPoints, h, ih]

theorem splitPoints_of_not_mem {cs : List Char} (h : '.' ∉ cs) : splitPoints cs = (cs, []) := by
  induction cs with
  | nil => rfl
  | cons c cs ih =>
    obtain ⟨hc, hcs⟩ := not_or.mp (fun hm => h (List.mem_cons.mpr hm))
    simp [splitPoints, ih hcs, Ne.symm hc]

theorem ofString_of_not_mem {s : String} (h : '.' ∉ s.toList) : ofString s = ⟨s, []⟩ := by
  simp [ofString, splitPoints_of_not_mem h]

theorem ofString_of_isName {s : String} (h : IsName s) : ofString s = ⟨s, []⟩ :=
  ofString_of_not_mem h.2

theorem not_mem_splitPoints (cs : List Char) :
    '.' ∉ (splitPoints cs).1 ∧ ∀ run ∈ (splitPoints cs).2, '.' ∉ run := by
  induction cs with
  | nil => exact ⟨List.not_mem_nil, nofun⟩
  | cons c cs ih =>
    by_cases hc : c = '.'
    · simp only [splitPoints, if_pos hc]
      exact ⟨List.not_mem_nil, List.forall_mem_cons.mpr ih⟩
    · simp only [splitPoints, if_neg hc]
      exact ⟨fun hm => (List.mem_cons.mp hm).elim (Ne.symm hc) ih.1, ih.2⟩

theorem isName_of_mem_names {s name : String} (h : name ∈ (ofString s).names) (hne : name ≠ "") :
    IsName name := by
  obtain ⟨hrun, hruns⟩ := not_mem_splitPoints s.toList
  refine ⟨hne, ?_⟩
  obtain rfl | hm := List.mem_cons.mp h
  · simpa [ofString] using hrun
  · obtain ⟨run, hmem, rfl⟩ := List.mem_map.mp hm
    simpa using hruns run hmem

theorem splitPoints_of_snd_eq_nil {cs : List Char} (h : (splitPoints cs).2 = []) :
    (splitPoints cs).1 = cs := by
  induction cs with
  | nil => rfl
  | cons c cs ih =>
    by_cases hc : c = '.'
    · simp [splitPoints, hc] at h
    · simp only [splitPoints, hc, if_false] at h ⊢
      rw [ih h]

theorem first_of_rest_eq_nil {s : String} (h : (ofString s).rest = []) :
    (ofString s).first = s := by
  have hruns : (splitPoints s.toList).2 = [] := List.map_eq_nil_iff.mp h
  simp [ofString, splitPoints_of_snd_eq_nil hruns]

theorem ofString_join {parent : String} (h : parent ≠ "") (name : String) :
    ofString (join parent name) =
      ⟨(ofString parent).first, (ofString parent).rest ++ (ofString name).names⟩ := by
  have hl : (join parent name).toList = parent.toList ++ '.' :: name.toList := by
    simp [join, h]
  simp [ofString, hl, splitPoints_append, names]

theorem names_join {parent : String} (h : parent ≠ "") (name : String) :
    (ofString (join parent name)).names = (ofString parent).names ++ (ofString name).names := by
  simp [ofString_join h, names]

@[simp] theorem join_empty (name : String) : join "" name = name := rfl

theorem join_ne_empty {parent name : String} (h : name ≠ "") : join parent name ≠ "" := by
  unfold join
  split
  · exact h
  · simp

theorem join_of_ne {parent : String} (h : parent ≠ "") (name : String) :
    join parent name = parent ++ "." ++ name := if_neg h

theorem join_join {name : String} (h : name ≠ "") (parent rest : String) :
    join (join parent name) rest = join parent (join name rest) := by
  rw [join_of_ne (join_ne_empty h), join_of_ne h]
  by_cases hp : parent = ""
  · rw [hp, join_empty, join_empty]
  · simp only [join_of_ne hp, String.append_assoc]

theorem names_append (p q : String) :
    (ofString (p ++ "." ++ q)).names = (ofString p).names ++ (ofString q).names := by
  have hl : (p ++ "." ++ q).toList = p.toList ++ '.' :: q.toList := by simp
  simp [ofString, hl, splitPoints_append, names]

def DottedPrefix (p q : String) : Prop := ∃ rest, q = p ++ "." ++ rest

/-- Two different paths of which neither leads through the other. -/
def Apart (p q : String) : Prop := p ≠ q ∧ ¬ DottedPrefix p q ∧ ¬ DottedPrefix q p

theorem not_apart_iff {p q : String} :
    ¬ Apart p q ↔ p = q ∨ DottedPrefix p q ∨ DottedPrefix q p := by
  simp only [Apart, ne_eq, Classical.not_and_iff_not_or_not, Classical.not_not]

theorem Apart.symm {p q : String} (h : Apart p q) : Apart q p := ⟨Ne.symm h.1, h.2.2, h.2.1⟩

theorem eq_or_append_of_runs {as bs : List Char} (h : (splitPoints as).1 = (splitPoints bs).1)
    (hs : (splitPoints as).2 <+: (splitPoints bs).2) : as = bs ∨ ∃ cs, bs = as ++ '.' :: cs := by
  induction as generalizing bs with
  | nil =>
    cases bs with
    | nil => exact .inl rfl
    | cons b bs =>
      by_cases hb : b = '.'
      · exact .inr ⟨bs, by rw [hb, List.nil_append]⟩
      · simp [splitPoints, hb] at h
  | cons a as ih =>
    cases bs with
    | nil => by_cases ha : a = '.' <;> simp [splitPoints, ha] at h hs
    | cons b bs =>
      -- the first runs agree, so that a point meets a point
      have hrest : a = b ∧ (as = bs ∨ ∃ cs, bs = as ++ '.' :: cs) := by
        by_cases ha : a = '.' <;> by_cases hb : b = '.'
        · simp only [splitPoints, ha, hb, if_true, List.cons_prefix_cons] at hs
          exact ⟨ha.trans hb.symm, ih hs.1 hs.2⟩
        · simp [splitPoints, ha, hb] at h
        · simp [splitPoints, ha, hb] at h
        · simp only [splitPoints, ha, hb, if_false, List.cons.injEq] at h hs
          exact ⟨h.1, ih h.2 hs⟩
      obtain ⟨rfl, rfl | ⟨cs, rfl⟩⟩ := hrest
      · exact .inl rfl
      · exact .inr ⟨cs, rfl⟩

theorem names_prefix_iff {p q : String} :
    (ofString p).names <+: (ofString q).names ↔ p = q ∨ DottedPrefix p q := by
  constructor
  · intro h
    have hinj : Function.Injective String.ofList := fun _ _ h => String.ofList_injective h
    obtain ⟨hfirst, hrest⟩ := List.cons_prefix_cons.mp h
    have hruns : (splitPoints p.toList).1 = (splitPoints q.toList).1 := hinj hfirst
    have hmore : (splitPoints p.toList).2 <+: (splitPoints q.toList).2 :=
      (List.prefix_map_iff_of_injective hinj).mp hrest
    obtain h | ⟨cs, h⟩ := eq_or_append_of_runs hruns hmore
    · exact .inl (String.toList_injective h)
    · refine .inr ⟨String.ofList cs, String.toList_injective ?_⟩
      simp [h]
  · rintro (rfl | ⟨rest, rfl⟩)
    · exact List.prefix_rfl
    · rw [names_append]
      exact List.prefix_append _ _

theorem apart_iff {p q : String} : Apart p q ↔
    ¬ (ofString p).names <+: (ofString q).names ∧ ¬ (ofString q).names <+: (ofString p).names := by
  rw [names_prefix_iff, names_prefix_iff, Apart]
  constructor
  · rintro ⟨hne, hp, hq⟩
    exact ⟨fun h => h.elim hne hp, fun h => h.elim (Ne.symm hne) hq⟩
  · rintro ⟨hp, hq⟩
    exact ⟨fun h => hp (.inl h), fun h => hp (.inr h), fun h => hq (.inr h)⟩

instance (p q : String) : Decidable (Apart p q) := decidable_of_iff _ apart_iff.symm

theorem apart_of_first_ne {p q : String} (h : (ofString p).first ≠ (ofString q).first) :
    Apart p q := by
  apply apart_iff.mpr
  constructor
  · exact fun hp => h (List.cons_prefix_cons.mp hp).1
  · exact fun hq => h (List.cons_prefix_cons.mp hq).1.symm

theorem Apart.append {p q : String} (h : Apart p q) (parent : String) :
    Apart (parent ++ "." ++ p) (parent ++ "." ++ q) := by
  obtain ⟨hp, hq⟩ := apart_iff.mp h
  apply apart_iff.mpr
  rw [names_append, names_append, List.prefix_append_right_inj, List.prefix_append_right_inj]
  exact ⟨hp, hq⟩

end Path

mutual

/-- Whether every document in a value, itself included, has names for its attributes and none of
them twice. -/
def Value.isNamed : Value → Bool
  | .document entries =>
    decide ((Document.keys entries).Nodup ∧ ∀ name ∈ Document.keys entries, Path.IsName name) &&
      entriesNamed entries
  | .array items => itemsNamed items
  | _ => true

def itemsNamed : List Value → Bool
  | [] => true
  | v :: items => v.isNamed && itemsNamed items

def entriesNamed : List (String × Value) → Bool
  | [] => true
  | (_, v) :: entries => v.isNamed && entriesNamed entries

end

namespace Document

def isNamed (d : Document) : Bool := (Value.document d).isNamed

theorem isNamed_iff {d : Document} : d.isNamed = true ↔
    d.keys.Nodup ∧ (∀ name ∈ d.keys, Path.IsName name) ∧ entriesNamed d = true := by
  rw [isNamed, Value.isNamed, Bool.and_eq_true, decide_eq_true_iff, and_assoc]

theorem isNamed_cons_iff {name : String} {v : Value} {d : Document} :
    isNamed ((name, v) :: d) = true ↔
      name ∉ d.keys ∧ Path.IsName name ∧ v.isNamed = true ∧ d.isNamed = true := by
  rw [isNamed_iff, isNamed_iff, entriesNamed, Bool.and_eq_true, keys, List.map_cons,
    List.nodup_cons, List.forall_mem_cons]
  constructor
  · rintro ⟨⟨hn, hd⟩, ⟨hname, hnames⟩, hv, he⟩
    exact ⟨hn, hname, hv, hd, hnames, he⟩
  · rintro ⟨hn, hname, hv, hd, hnames, he⟩
    exact ⟨⟨hn, hd⟩, ⟨hname, hnames⟩, hv, he⟩

theorem isNamed_of_mem {name : String} {v : Value} {d : Document} (h : d.isNamed = true)
    (hm : (name, v) ∈ d) : v.isNamed = true := by
  induction d with
  | nil => exact nomatch hm
  | cons e d ih =>
    obtain ⟨-, -, hv, hd⟩ := isNamed_cons_iff.mp h
    obtain rfl | hm := List.mem_cons.mp hm
    · exact hv
    · exact ih hd hm

theorem isNamed_sublist {d e : Document} (h : d.isNamed = true) (hs : e.Sublist d) :
    e.isNamed = true := by
  induction hs with
  | slnil => exact h
  | cons _ _ ih => exact ih (isNamed_cons_iff.mp h).2.2.2
  | cons_cons a hs ih =>
    obtain ⟨hn, hname, hv, hd⟩ := isNamed_cons_iff.mp h
    exact isNamed_cons_iff.mpr ⟨fun hm => hn ((hs.map Prod.fst).subset hm), hname, hv, ih hd⟩

theorem mem_of_get? {d : Document} {name : String} {v : Value} (h : d.get? name = some v) :
    (name, v) ∈ d := Entries.mem_of_lookup h

theorem get?_of_mem {name : String} {v : Value} {d : Document} (hk : d.keys.Nodup)
    (h : (name, v) ∈ d) : d.get? name = some v := Entries.lookup_of_mem hk h

theorem get?_eq_none {d : Document} {name : String} (h : name ∉ d.keys) : d.get? name = none :=
  Entries.lookup_eq_none_iff.mpr h

theorem get?_filterMap {d : Document} (hd : d.keys.Nodup) (f : String → Value → Option Value)
    (name : String) :
    get? (d.filterMap fun e => (f e.1 e.2).map (Prod.mk e.1)) name =
      (d.get? name).bind (f name) := by
  induction d with
  | nil => rfl
  | cons e d ih =>
    obtain ⟨k, v⟩ := e
    obtain ⟨hk, hrest⟩ := List.nodup_cons.mp hd
    rw [List.filterMap_cons, get?_cons]
    by_cases hn : name = k
    · subst hn
      rw [if_pos rfl, Option.bind_some]
      cases f name v with
      | none => rw [Option.map_none, ih hrest, get?_eq_none hk, Option.bind_none]
      | some w => rw [Option.map_some, get?_cons, if_pos rfl]
    · rw [if_neg hn, ← ih hrest]
      cases f k v with
      | none => rfl
      | some w => rw [Option.map_some, get?_cons, if_neg hn]

end Document

end RecordStore
