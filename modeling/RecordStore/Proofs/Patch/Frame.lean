import RecordStore.Patch
import RecordStore.Proofs.Value.Walk

namespace RecordStore

namespace Document

theorem mem_keys_erase {d : Document} {name other : String} :
    other ∈ (d.erase name).keys ↔ other ∈ d.keys ∧ other ≠ name := by
  unfold keys erase
  rw [List.mem_map, List.mem_map]
  constructor
  · rintro ⟨e, he, rfl⟩
    obtain ⟨hm, hn⟩ := List.mem_filter.mp he
    exact ⟨⟨e, hm, rfl⟩, bne_iff_ne.mp hn⟩
  · rintro ⟨⟨e, hm, rfl⟩, hn⟩
    exact ⟨e, List.mem_filter.mpr ⟨hm, bne_iff_ne.mpr hn⟩, rfl⟩

end Document

namespace Patch

def paths (p : Patch) : List String := p.set.map Prod.fst ++ p.unset

theorem mem_paths_append {p q : Patch} {path : String} :
    path ∈ (p.append q).paths ↔ path ∈ p.paths ∨ path ∈ q.paths := by
  simp only [paths, append, List.map_append, List.mem_append]
  exact or_or_or_comm

section Reading

variable {γ : Type} (read : Document → γ)

theorem read_foldl_applySet {set : List (String × Value)}
    (h : ∀ e ∈ set, ∀ d, read (d.setPath (Path.ofString e.1) e.2) = read d)
    (state : Document × Bool) : read (set.foldl applySet state).1 = read state.1 := by
  induction set generalizing state with
  | nil => rfl
  | cons e set ih =>
    obtain ⟨he, hes⟩ := List.forall_mem_cons.mp h
    rw [List.foldl_cons, ih hes]
    exact he state.1

theorem read_foldl_applyUnset {unset : List String}
    (h : ∀ path ∈ unset, ∀ d, read (d.unsetPath (Path.ofString path)) = read d)
    (state : Document × Bool) : read (unset.foldl applyUnset state).1 = read state.1 := by
  induction unset generalizing state with
  | nil => rfl
  | cons path unset ih =>
    obtain ⟨hp, hps⟩ := List.forall_mem_cons.mp h
    rw [List.foldl_cons, ih hps]
    exact hp state.1

theorem read_apply {p : Patch}
    (hset : ∀ path ∈ p.paths, ∀ d v, read (d.setPath (Path.ofString path) v) = read d)
    (hunset : ∀ path ∈ p.paths, ∀ d, read (d.unsetPath (Path.ofString path)) = read d)
    (d : Document) : read (p.apply d) = read d := by
  rw [apply, run, read_foldl_applyUnset read, read_foldl_applySet read]
  · exact fun e he d => hset e.1 (List.mem_append_left _ (List.mem_map_of_mem he)) d e.2
  · exact fun path hp d => hunset path (List.mem_append_right _ hp) d

end Reading

/-- No path of the patch begins with the attribute. -/
def Spares (p : Patch) (name : String) : Prop :=
  ∀ path ∈ p.paths, (Path.ofString path).first ≠ name

instance (p : Patch) (name : String) : Decidable (p.Spares name) :=
  inferInstanceAs (Decidable (∀ path ∈ p.paths, _))

theorem Spares.get?_apply {p : Patch} {name : String} (h : p.Spares name) (d : Document) :
    (p.apply d).get? name = d.get? name := by
  apply read_apply (Document.get? · name)
  · exact fun path hp d v => Document.get?_setAt_of_ne (h path hp).symm d v _
  · exact fun path hp d => Document.get?_unsetAt_of_ne (h path hp).symm d _

theorem ofDocument_cons (name : String) (v : Value) (d : Document) :
    ofDocument ((name, v) :: d) = (v.patchAt name).append (ofDocument d) := by
  rw [ofDocument, patchEntries, Path.join_empty]
  rfl

theorem mem_paths_ofDocument {d : Document} {q : String} :
    q ∈ (ofDocument d).paths ↔ ∃ e ∈ d, q ∈ (e.2.patchAt e.1).paths := by
  induction d with
  | nil =>
    constructor
    · exact fun h => nomatch h
    · exact fun ⟨_, he, _⟩ => nomatch he
  | cons e d ih =>
    obtain ⟨name, v⟩ := e
    rw [ofDocument_cons, mem_paths_append, ih]
    simp only [List.mem_cons, exists_eq_or_imp]

end Patch

mutual

theorem names_prefix_of_mem_patchAt {path : String} (hp : path ≠ "") (v : Value) :
    ∀ q ∈ (v.patchAt path).paths, (Path.ofString path).names <+: (Path.ofString q).names := by
  cases v with
  | document sub =>
    rw [Value.patchAt]
    split
    · exact names_prefix_of_mem_patchEntries hp sub
    · exact fun q hq => List.mem_singleton.mp hq ▸ List.prefix_rfl
  | _ => exact fun q hq => List.mem_singleton.mp hq ▸ List.prefix_rfl

theorem names_prefix_of_mem_patchEntries {parent : String} (hp : parent ≠ "")
    (entries : List (String × Value)) :
    ∀ q ∈ (patchEntries parent entries).paths,
      (Path.ofString parent).names <+: (Path.ofString q).names := by
  cases entries with
  | nil => exact fun q hq => nomatch hq
  | cons e entries =>
    obtain ⟨name, v⟩ := e
    intro q hq
    rw [patchEntries, Patch.mem_paths_append] at hq
    have hne : Path.join parent name ≠ "" := by simp [Path.join, hp]
    obtain hq | hq := hq
    · have hjoin := names_prefix_of_mem_patchAt hne v q hq
      rw [Path.names_join hp] at hjoin
      exact (List.prefix_append _ _).trans hjoin
    · exact names_prefix_of_mem_patchEntries hp entries q hq

end

theorem first_of_mem_patchAt {path q : String} (hp : path ≠ "") {v : Value}
    (hq : q ∈ (v.patchAt path).paths) : (Path.ofString q).first = (Path.ofString path).first :=
  (List.cons_prefix_cons.mp (names_prefix_of_mem_patchAt hp v q hq)).1.symm

theorem exists_mem_patchAt (path : String) (v : Value) : ∃ q, q ∈ (v.patchAt path).paths := by
  cases v with
  | document sub =>
    rw [Value.patchAt]
    split
    · cases sub with
      | nil => exact absurd ‹_› Bool.false_ne_true
      | cons e entries =>
        obtain ⟨name, w⟩ := e
        obtain ⟨q, hq⟩ := exists_mem_patchAt (Path.join path name) w
        exact ⟨q, Patch.mem_paths_append.mpr (.inl hq)⟩
    · exact ⟨path, List.mem_singleton.mpr rfl⟩
  | _ => exact ⟨path, List.mem_singleton.mpr rfl⟩

theorem first_of_mem_ofDocument {d : Document} (h : ∀ name ∈ d.keys, Path.IsName name) :
    ∀ q ∈ (Patch.ofDocument d).paths, (Path.ofString q).first ∈ d.keys := by
  intro q hq
  obtain ⟨e, he, hq⟩ := Patch.mem_paths_ofDocument.mp hq
  have hkey : e.1 ∈ d.keys := List.mem_map_of_mem he
  have hname := h e.1 hkey
  rw [first_of_mem_patchAt hname.1 hq, Path.ofString_of_isName hname]
  exact hkey

namespace Patch

theorem spares_ofDocument_iff {changes : Document} (h : ∀ other ∈ changes.keys, other ≠ "")
    (name : String) : (ofDocument changes).Spares name ↔
      ∀ other ∈ changes.keys, (Path.ofString other).first ≠ name := by
  constructor
  · intro hs other ho
    obtain ⟨e, he, rfl⟩ := List.mem_map.mp ho
    obtain ⟨q, hq⟩ := exists_mem_patchAt e.1 e.2
    rw [← first_of_mem_patchAt (h e.1 ho) hq]
    exact hs q (mem_paths_ofDocument.mpr ⟨e, he, hq⟩)
  · intro hk q hq
    obtain ⟨e, he, hq⟩ := mem_paths_ofDocument.mp hq
    have hkey : e.1 ∈ changes.keys := List.mem_map_of_mem he
    rw [first_of_mem_patchAt (h e.1 hkey) hq]
    exact hk e.1 hkey

theorem get?_apply_ofDocument {changes : Document}
    (h : ∀ name ∈ changes.keys, Path.IsName name) {name : String} (hn : name ∉ changes.keys)
    (d : Document) : ((ofDocument changes).apply d).get? name = d.get? name := by
  have hs : (ofDocument changes).Spares name := by
    apply (spares_ofDocument_iff (fun other ho => (h other ho).1) name).mpr
    intro other ho hfirst
    rw [Path.ofString_of_isName (h other ho)] at hfirst
    exact hn (hfirst ▸ ho)
  exact hs.get?_apply d

/-- What a document says beside one attribute does not change that attribute. -/
theorem get?_apply_ofDocument_erase {d : Document} (h : ∀ name ∈ d.keys, Path.IsName name)
    (name : String) (r : Document) :
    ((ofDocument (d.erase name)).apply r).get? name = r.get? name := by
  refine get?_apply_ofDocument (fun other ho => ?_) (fun hn => ?_) r
  · exact h other (Document.mem_keys_erase.mp ho).1
  · exact (Document.mem_keys_erase.mp hn).2 rfl

end Patch

end RecordStore
