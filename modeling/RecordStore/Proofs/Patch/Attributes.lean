import RecordStore.Proofs.Patch.Below

namespace RecordStore

namespace Path

def afterFirst (path : String) : String :=
  String.ofList (path.toList.drop ((splitPoints path.toList).1.length + 1))

theorem splitPoints_drop {cs run : List Char} {runs : List (List Char)}
    (h : (splitPoints cs).2 = run :: runs) :
    splitPoints (cs.drop ((splitPoints cs).1.length + 1)) = (run, runs) := by
  induction cs with
  | nil => cases h
  | cons c cs ih =>
    by_cases hc : c = '.'
    · simp only [splitPoints, hc, if_true, List.cons.injEq] at h
      simp [splitPoints, hc, ← h.1, ← h.2]
    · simp only [splitPoints, hc, if_false] at h
      simpa [splitPoints, hc] using ih h

theorem ofString_afterFirst {path next : String} {rest : List String}
    (h : (ofString path).rest = next :: rest) : ofString (afterFirst path) = ⟨next, rest⟩ := by
  obtain ⟨run, runs, hruns, rfl, rfl⟩ := List.map_eq_cons_iff.mp h
  simp [ofString, afterFirst, splitPoints_drop hruns]

def LeadsBelow (name path : String) : Prop :=
  (ofString path).first = name ∧ (ofString path).rest ≠ []

instance (name path : String) : Decidable (LeadsBelow name path) :=
  inferInstanceAs (Decidable (_ ∧ _))

theorem LeadsBelow.names_eq {name path : String} (h : LeadsBelow name path) :
    (ofString path).names = name :: (ofString (afterFirst path)).names := by
  obtain ⟨rfl, hrest⟩ := h
  obtain ⟨next, rest, hr⟩ := List.exists_cons_of_ne_nil hrest
  rw [ofString_afterFirst hr, names, hr]
  rfl

theorem Apart.afterFirst {name p q : String} (h : Apart p q) (hp : LeadsBelow name p)
    (hq : LeadsBelow name q) : Apart (afterFirst p) (afterFirst q) := by
  rw [apart_iff, hp.names_eq, hq.names_eq, List.cons_prefix_cons, List.cons_prefix_cons,
    and_iff_right rfl, and_iff_right rfl] at h
  exact apart_iff.mpr h

end Path

namespace Document

theorem eq_of_get? {d e : Document} (hkeys : d.keys = e.keys) (hd : d.keys.Nodup)
    (h : ∀ name, d.get? name = e.get? name) : d = e := Entries.eq_of_lookup hkeys hd h

theorem keys_insert (d : Document) (name : String) (v : Value) :
    (d.insert name v).keys = if name ∈ d.keys then d.keys else d.keys ++ [name] := by
  induction d with
  | nil => rfl
  | cons e d ih =>
    obtain ⟨k, w⟩ := e
    by_cases hk : k = name
    · simp [insert, keys, hk]
    · simp only [keys] at ih
      by_cases hm : name ∈ d.map Prod.fst <;> simp [insert, keys, hk, Ne.symm hk, ih, hm]

theorem keys_setPath (d : Document) (p : Path) (v : Value) :
    (d.setPath p v).keys = if p.first ∈ d.keys then d.keys else d.keys ++ [p.first] := by
  obtain ⟨name, rest⟩ := p
  cases rest with
  | nil => exact keys_insert d name v
  | cons next rest => rw [setPath, setAt_cons, keys_insert]

theorem keys_unsetPath (d : Document) (p : Path) :
    (d.unsetPath p).keys = d.keys.filter fun name => p ≠ ⟨name, []⟩ := by
  obtain ⟨name, rest⟩ := p
  cases rest with
  | nil =>
    simp only [unsetPath, unsetAt, erase, keys, List.filter_map]
    congr 1
    refine List.filter_congr fun e _ => ?_
    by_cases he : e.1 = name
    · simp [he]
    · simp [he, Ne.symm he]
  | cons next rest =>
    have hall : d.keys.filter (fun other => (⟨name, next :: rest⟩ : Path) ≠ ⟨other, []⟩) = d.keys :=
      List.filter_eq_self.mpr (by simp)
    rw [hall]
    obtain ⟨sub, hsub⟩ | ⟨-, hplain⟩ := document_or (d.get? name)
    · have hm : name ∈ d.keys := (isSome_get?_iff d name).mp (by rw [hsub]; rfl)
      simp only [unsetPath, unsetAt, hsub, keys_insert, hm, if_true]
    · simp only [unsetPath, unsetAt]

theorem nodup_keys_setPath {d : Document} (h : d.keys.Nodup) (p : Path) (v : Value) :
    (d.setPath p v).keys.Nodup := by
  rw [keys_setPath, ← keys_insert d p.first v]
  exact nodup_keys_insert p.first v h

variable {d e : Document} {name : String}

theorem get?_setPath_congr (h : d.get? name = e.get? name) (p : Path) (v : Value) :
    (d.setPath p v).get? name = (e.setPath p v).get? name := by
  obtain ⟨first, rest⟩ := p
  by_cases hn : name = first
  · subst hn
    cases rest with
    | nil => rw [setPath, setPath, setAt, setAt, get?_insert_self, get?_insert_self]
    | cons next rest =>
      rw [setPath, setPath, setAt_cons, setAt_cons, get?_insert_self, get?_insert_self, h]
  · rw [setPath, setPath, get?_setAt_of_ne hn, get?_setAt_of_ne hn, h]

theorem get?_unsetPath_congr (h : d.get? name = e.get? name) (p : Path) :
    (d.unsetPath p).get? name = (e.unsetPath p).get? name := by
  obtain ⟨first, rest⟩ := p
  by_cases hn : name = first
  · subst hn
    cases rest with
    | nil => rw [unsetPath, unsetPath, unsetAt, unsetAt, get?_erase_self, get?_erase_self]
    | cons next rest =>
      obtain ⟨sub, hsub⟩ | ⟨-, hplain⟩ := document_or (e.get? name)
      · simp only [unsetPath, unsetAt, h, hsub, get?_insert_self]
      · simp only [unsetPath, unsetAt, h]
  · rw [unsetPath, unsetPath, get?_unsetAt_of_ne hn, get?_unsetAt_of_ne hn, h]

theorem WritesAlong.below {write : Document → String → List String → Document}
    {outcome : Option Value} (hw : WritesAlong write outcome) {path : String}
    (h : Path.LeadsBelow name path) (d : Document) :
    attributesOf (get? (write d (Path.ofString path).first (Path.ofString path).rest) name) =
      write (attributesOf (get? d name)) (Path.ofString (Path.afterFirst path)).first
        (Path.ofString (Path.afterFirst path)).rest := by
  obtain ⟨rfl, hrest⟩ := h
  obtain ⟨next, rest, hr⟩ := List.exists_cons_of_ne_nil hrest
  rw [Path.ofString_afterFirst hr, hr]
  exact hw.inside d _ next rest

theorem Nests.get?_eq (h : d.Nests name) :
    d.get? name = some (.document (attributesOf (d.get? name))) := by
  obtain ⟨sub, hsub⟩ := h
  rw [hsub]
  rfl

end Document

namespace Patch

/-- The changes that the patch makes below an attribute, as changes of what stands there. -/
def below (p : Patch) (name : String) : Patch :=
  ⟨(p.set.filter fun e => Path.LeadsBelow name e.1).map fun e => (Path.afterFirst e.1, e.2),
    (p.unset.filter fun path => Path.LeadsBelow name path).map Path.afterFirst⟩

theorem paths_below (p : Patch) (name : String) :
    (p.below name).paths = (p.paths.filter (Path.LeadsBelow name ·)).map Path.afterFirst := by
  simp only [paths, below, List.filter_append, List.filter_map, List.map_append, List.map_map]
  rfl

theorem mem_paths_below {p : Patch} {name path : String} :
    path ∈ (p.below name).paths ↔
      ∃ q ∈ p.paths, Path.LeadsBelow name q ∧ path = Path.afterFirst q := by
  rw [paths_below, List.mem_map]
  simp only [List.mem_filter, decide_eq_true_eq, and_assoc, eq_comm (a := path)]

theorem length_names_of_mem_below {p : Patch} {name : String} {n : Nat}
    (hp : ∀ path ∈ p.paths, (Path.ofString path).names.length ≤ n + 1) :
    ∀ path ∈ (p.below name).paths, (Path.ofString path).names.length ≤ n := by
  intro path hm
  obtain ⟨q, hq, hbelow, rfl⟩ := mem_paths_below.mp hm
  have hlength := hp q hq
  rw [hbelow.names_eq] at hlength
  exact Nat.le_of_succ_le_succ hlength

section Fold

variable {α : Type} {step : Document × Bool → α → Document × Bool} {name : String}

/-- What a change leaves of an attribute depends on nothing but the attribute. -/
def IsLocal (step : Document × Bool → α → Document × Bool) (name : String) : Prop :=
  ∀ a (s t : Document × Bool), s.1.get? name = t.1.get? name →
    (step s a).1.get? name = (step t a).1.get? name

theorem IsLocal.foldl (hstep : IsLocal step name) (changes : List α) {s t : Document × Bool}
    (h : s.1.get? name = t.1.get? name) :
    (changes.foldl step s).1.get? name = (changes.foldl step t).1.get? name := by
  induction changes generalizing s t with
  | nil => exact h
  | cons a changes ih => exact ih (hstep a s t h)

/-- After a change that leaves the same in every document, nothing tells the documents apart. -/
theorem IsLocal.foldl_of_settles (hstep : IsLocal step name) {changes : List α} {a : α}
    (ha : a ∈ changes) {outcome : Option Value}
    (hsettles : ∀ s, (step s a).1.get? name = outcome) (s t : Document × Bool) :
    (changes.foldl step s).1.get? name = (changes.foldl step t).1.get? name := by
  obtain ⟨front, back, rfl⟩ := List.append_of_mem ha
  rw [List.foldl_append, List.foldl_append]
  exact hstep.foldl back ((hsettles _).trans (hsettles _).symm)

theorem attributesOf_foldl {key : α → String} {lower : α → α}
    (hinside : ∀ a (s t : Document × Bool), Path.LeadsBelow name (key a) →
      Document.attributesOf (s.1.get? name) = t.1 →
      Document.attributesOf ((step s a).1.get? name) = (step t (lower a)).1)
    (helsewhere : ∀ a (s : Document × Bool), (Path.ofString (key a)).first ≠ name →
      (step s a).1.get? name = s.1.get? name)
    {changes : List α} (h : ∀ a ∈ changes,
      (Path.ofString (key a)).first = name → (Path.ofString (key a)).rest ≠ [])
    {s t : Document × Bool} (hs : Document.attributesOf (s.1.get? name) = t.1) :
    Document.attributesOf ((changes.foldl step s).1.get? name) =
      (((changes.filter fun a => Path.LeadsBelow name (key a)).map lower).foldl step t).1 := by
  induction changes generalizing s t with
  | nil => exact hs
  | cons a changes ih =>
    obtain ⟨ha, hrest⟩ := List.forall_mem_cons.mp h
    by_cases hfirst : (Path.ofString (key a)).first = name
    · have hbelow : Path.LeadsBelow name (key a) := ⟨hfirst, ha hfirst⟩
      rw [List.filter_cons, if_pos (decide_eq_true hbelow)]
      exact ih hrest (hinside a s t hbelow hs)
    · have hother : ¬ decide (Path.LeadsBelow name (key a)) = true := fun hb =>
        hfirst (of_decide_eq_true hb).1
      rw [List.filter_cons, if_neg hother]
      exact ih hrest (by rw [helsewhere a s hfirst, hs])

end Fold

theorem isLocal_applySet (name : String) : IsLocal applySet name := fun e _ _ h =>
  Document.get?_setPath_congr h (Path.ofString e.1) e.2

theorem isLocal_applyUnset (name : String) : IsLocal applyUnset name := fun path _ _ h =>
  Document.get?_unsetPath_congr h (Path.ofString path)

theorem attributesOf_applySet {name : String} (e : String × Value) (s t : Document × Bool)
    (h : Path.LeadsBelow name e.1) (hs : Document.attributesOf (s.1.get? name) = t.1) :
    Document.attributesOf ((applySet s e).1.get? name) =
      (applySet t (Path.afterFirst e.1, e.2)).1 := by
  simp only [applySet, Document.setPath, ← hs]
  exact (Document.writesAlong_setAt e.2).below h s.1

theorem attributesOf_applyUnset {name : String} (path : String) (s t : Document × Bool)
    (h : Path.LeadsBelow name path) (hs : Document.attributesOf (s.1.get? name) = t.1) :
    Document.attributesOf ((applyUnset s path).1.get? name) =
      (applyUnset t (Path.afterFirst path)).1 := by
  simp only [applyUnset, Document.unsetPath, ← hs]
  exact Document.writesAlong_unsetAt.below h s.1

section Names

variable {set : List (String × Value)}

theorem nodup_keys_foldl_applySet (set : List (String × Value)) {state : Document × Bool}
    (h : state.1.keys.Nodup) : (set.foldl applySet state).1.keys.Nodup := by
  induction set generalizing state with
  | nil => exact h
  | cons e set ih => exact ih (Document.nodup_keys_setPath h _ e.2)

theorem keys_foldl_applySet (set : List (String × Value)) (state : Document × Bool) :
    ∃ more, (set.foldl applySet state).1.keys = state.1.keys ++ more ∧
      ∀ name ∈ more, ∃ e ∈ set, (Path.ofString e.1).first = name := by
  induction set generalizing state with
  | nil => exact ⟨[], (List.append_nil _).symm, fun _ h => nomatch h⟩
  | cons e set ih =>
    obtain ⟨more, hkeys, hmore⟩ := ih (applySet state e)
    have hmore' : ∀ name ∈ more, ∃ f ∈ e :: set, (Path.ofString f.1).first = name :=
      fun name hm => (hmore name hm).imp fun f hf => ⟨List.mem_cons_of_mem e hf.1, hf.2⟩
    rw [applySet, Document.keys_setPath] at hkeys
    split at hkeys
    · exact ⟨more, hkeys, hmore'⟩
    · refine ⟨(Path.ofString e.1).first :: more, hkeys.trans (by simp), ?_⟩
      exact List.forall_mem_cons.mpr ⟨⟨e, List.mem_cons_self, rfl⟩, hmore'⟩

theorem first_mem_keys_foldl_applySet {e : String × Value} (he : e ∈ set)
    (state : Document × Bool) :
    (Path.ofString e.1).first ∈ (set.foldl applySet state).1.keys := by
  induction set generalizing state with
  | nil => exact nomatch he
  | cons f set ih =>
    obtain rfl | he := List.mem_cons.mp he
    · obtain ⟨more, hkeys, -⟩ := keys_foldl_applySet set (applySet state e)
      rw [List.foldl_cons, hkeys]
      apply List.mem_append_left
      rw [applySet, Document.keys_setPath]
      split
      · assumption
      · exact List.mem_append_right _ List.mem_cons_self
    · exact ih he _

theorem keys_foldl_applyUnset (unset : List String) (state : Document × Bool) :
    (unset.foldl applyUnset state).1.keys =
      state.1.keys.filter fun name => ∀ path ∈ unset, Path.ofString path ≠ ⟨name, []⟩ := by
  induction unset generalizing state with
  | nil => exact (List.filter_eq_self.mpr (by simp)).symm
  | cons path unset ih =>
    rw [List.foldl_cons, ih, applyUnset, Document.keys_unsetPath, List.filter_filter]
    refine List.filter_congr fun name _ => ?_
    simp [Bool.and_comm]

theorem nodup_keys_apply {d : Document} (h : d.keys.Nodup) (p : Patch) :
    (p.apply d).keys.Nodup := by
  rw [apply, run, keys_foldl_applyUnset]
  exact (nodup_keys_foldl_applySet p.set h).filter _

end Names

/-- An attribute that is assigned or removed as a whole ends alike in every document. -/
theorem get?_apply_of_whole {p : Patch} {name : String}
    (h : ∃ path ∈ p.paths, Path.ofString path = ⟨name, []⟩) (d e : Document) :
    (p.apply d).get? name = (p.apply e).get? name := by
  obtain ⟨path, hm, hpath⟩ := h
  obtain hm | hm := List.mem_append.mp hm
  · obtain ⟨f, hf, rfl⟩ := List.mem_map.mp hm
    have hassigned : ∀ s, (applySet s f).1.get? name = some f.2 := fun s => by
      simp only [applySet, hpath, Document.setPath, Document.setAt, Document.get?_insert_self]
    exact (isLocal_applyUnset name).foldl p.unset
      ((isLocal_applySet name).foldl_of_settles hf hassigned (d, false) (e, false))
  · have hremoved : ∀ s, (applyUnset s path).1.get? name = none := fun s => by
      simp only [applyUnset, hpath, Document.unsetPath, Document.unsetAt,
        Document.get?_erase_self]
    exact (isLocal_applyUnset name).foldl_of_settles hm hremoved _ _

namespace OnlyBelow

variable {p : Patch} {name : String}

theorem of_not_whole (h : ¬ ∃ path ∈ p.paths, Path.ofString path = ⟨name, []⟩) :
    p.OnlyBelow name := fun path hm hfirst hrest => h ⟨path, hm, by rw [← hfirst, ← hrest]⟩

theorem attributesOf_apply (hp : p.OnlyBelow name) (d : Document) :
    Document.attributesOf ((p.apply d).get? name) =
      (p.below name).apply (Document.attributesOf (d.get? name)) := by
  have hassigned := attributesOf_foldl attributesOf_applySet
    (fun e s hne => Document.get?_setAt_of_ne (Ne.symm hne) s.1 e.2 _) hp.set
    (s := (d, false)) (t := (Document.attributesOf (d.get? name), false)) rfl
  exact attributesOf_foldl attributesOf_applyUnset
    (fun path s hne => Document.get?_unsetAt_of_ne (Ne.symm hne) s.1 _) hp.unset hassigned

end OnlyBelow

end Patch

end RecordStore
