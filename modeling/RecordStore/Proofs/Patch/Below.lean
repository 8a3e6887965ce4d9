import RecordStore.Proofs.Patch.Frame

namespace RecordStore

namespace Document

variable {d : Document} {name : String} {p : Path}

def Nests (d : Document) (name : String) : Prop := ∃ sub, d.get? name = some (.document sub)

theorem nests_setPath (hp : p.rest ≠ []) (d : Document) (v : Value) :
    (d.setPath p v).Nests p.first := by
  obtain ⟨name, rest⟩ := p
  cases rest with
  | nil => exact absurd rfl hp
  | cons next rest =>
    refine ⟨setAt (attributesOf (d.get? name)) next v rest, ?_⟩
    rw [setPath, setAt_cons, get?_insert_self]

theorem Nests.setPath (h : d.Nests name) (hp : p.first = name → p.rest ≠ []) (v : Value) :
    (d.setPath p v).Nests name := by
  by_cases hn : p.first = name
  · rw [← hn]
    exact nests_setPath (hp hn) d v
  · obtain ⟨sub, hsub⟩ := h
    exact ⟨sub, (get?_setAt_of_ne (Ne.symm hn) d v _).trans hsub⟩

theorem Nests.unsetPath (h : d.Nests name) (hp : p.first = name → p.rest ≠ []) :
    (d.unsetPath p).Nests name := by
  obtain ⟨sub, hsub⟩ := h
  obtain ⟨first, rest⟩ := p
  by_cases hn : first = name
  · subst hn
    cases rest with
    | nil => exact absurd rfl (hp rfl)
    | cons next rest =>
      refine ⟨unsetAt sub next rest, ?_⟩
      simp only [Document.unsetPath, unsetAt, hsub, get?_insert_self]
  · exact ⟨sub, (get?_unsetAt_of_ne (Ne.symm hn) d _).trans hsub⟩

theorem get?_unsetPath_of_not_nests (h : ¬ d.Nests name) (hp : p.first = name → p.rest ≠ []) :
    (d.unsetPath p).get? name = d.get? name := by
  obtain ⟨first, rest⟩ := p
  by_cases hn : first = name
  · subst hn
    cases rest with
    | nil => exact absurd rfl (hp rfl)
    | cons next rest =>
      obtain ⟨sub, hsub⟩ | ⟨-, hplain⟩ := document_or (d.get? first)
      · exact absurd ⟨sub, hsub⟩ h
      · simp only [unsetPath, unsetAt]
  · exact get?_unsetAt_of_ne (Ne.symm hn) d _

end Document

namespace Patch

/-- Where a path of the patch begins with the attribute, it goes on below it. -/
def OnlyBelow (p : Patch) (name : String) : Prop :=
  ∀ path ∈ p.paths, (Path.ofString path).first = name → (Path.ofString path).rest ≠ []

theorem onlyBelow_ofDocument {changes : Document} (h : ∀ other ∈ changes.keys, other ≠ "")
    {name : String} (hn : name ∉ changes.keys) : (ofDocument changes).OnlyBelow name := by
  intro q hq hfirst hrest
  obtain ⟨e, he, hq⟩ := mem_paths_ofDocument.mp hq
  have hkey : e.1 ∈ changes.keys := List.mem_map_of_mem he
  have hprefix := names_prefix_of_mem_patchAt (h e.1 hkey) e.2 q hq
  rw [Path.names, Path.names, hrest, List.cons_prefix_cons, List.prefix_nil] at hprefix
  have hwhole : (Path.ofString e.1).first = e.1 := Path.first_of_rest_eq_nil hprefix.2
  rw [← hwhole, hprefix.1, hfirst] at hkey
  exact hn hkey

section Fold

variable {set : List (String × Value)} {unset : List String} {name : String}

theorem nests_foldl_applySet
    (h : ∀ e ∈ set, (Path.ofString e.1).first = name → (Path.ofString e.1).rest ≠ [])
    {state : Document × Bool}
    (hs : state.1.Nests name ∨ ∃ e ∈ set, (Path.ofString e.1).first = name) :
    (set.foldl applySet state).1.Nests name := by
  induction set generalizing state with
  | nil =>
    obtain hs | ⟨e, he, -⟩ := hs
    · exact hs
    · exact nomatch he
  | cons e set ih =>
    obtain ⟨he, hes⟩ := List.forall_mem_cons.mp h
    apply ih hes
    obtain hs | ⟨f, hf, hfirst⟩ := hs
    · exact .inl (hs.setPath he e.2)
    · obtain rfl | hf := List.mem_cons.mp hf
      · subst hfirst
        exact .inl (Document.nests_setPath (he rfl) state.1 f.2)
      · exact .inr ⟨f, hf, hfirst⟩

theorem nests_foldl_applyUnset
    (h : ∀ path ∈ unset, (Path.ofString path).first = name → (Path.ofString path).rest ≠ [])
    {state : Document × Bool} (hs : state.1.Nests name) :
    (unset.foldl applyUnset state).1.Nests name := by
  induction unset generalizing state with
  | nil => exact hs
  | cons path unset ih =>
    obtain ⟨hp, hps⟩ := List.forall_mem_cons.mp h
    exact ih hps (hs.unsetPath hp)

theorem get?_foldl_applyUnset_of_not_nests
    (h : ∀ path ∈ unset, (Path.ofString path).first = name → (Path.ofString path).rest ≠ [])
    {state : Document × Bool} (hs : ¬ state.1.Nests name) :
    (unset.foldl applyUnset state).1.get? name = state.1.get? name := by
  induction unset generalizing state with
  | nil => rfl
  | cons path unset ih =>
    obtain ⟨hp, hps⟩ := List.forall_mem_cons.mp h
    have hkept := Document.get?_unsetPath_of_not_nests hs hp
    have hnext : ¬ (applyUnset state path).1.Nests name := fun ⟨sub, hsub⟩ =>
      hs ⟨sub, hkept.symm.trans hsub⟩
    rw [List.foldl_cons, ih hps hnext]
    exact hkept

end Fold

namespace OnlyBelow

variable {p : Patch} {name : String} {d : Document}

theorem set (hp : p.OnlyBelow name) :
    ∀ e ∈ p.set, (Path.ofString e.1).first = name → (Path.ofString e.1).rest ≠ [] :=
  fun e he => hp e.1 (List.mem_append_left _ (List.mem_map_of_mem he))

theorem unset (hp : p.OnlyBelow name) :
    ∀ path ∈ p.unset, (Path.ofString path).first = name → (Path.ofString path).rest ≠ [] :=
  fun path hm => hp path (List.mem_append_right _ hm)

theorem nests_apply (hp : p.OnlyBelow name)
    (h : d.Nests name ∨ ∃ e ∈ p.set, (Path.ofString e.1).first = name) :
    (p.apply d).Nests name :=
  nests_foldl_applyUnset hp.unset (nests_foldl_applySet hp.set h)

theorem get?_apply_eq_iff (hp : p.OnlyBelow name) (hd : ¬ d.Nests name) :
    (p.apply d).get? name = d.get? name ↔ ∀ e ∈ p.set, (Path.ofString e.1).first ≠ name := by
  constructor
  · intro hkept e he hfirst
    obtain ⟨sub, hsub⟩ := hp.nests_apply (.inr ⟨e, he, hfirst⟩)
    exact hd ⟨sub, hkept.symm.trans hsub⟩
  · intro hnone
    have hkept : (p.set.foldl applySet (d, false)).1.get? name = d.get? name :=
      read_foldl_applySet (Document.get? · name)
        (fun e he d => Document.get?_setAt_of_ne (hnone e he).symm d e.2 _) (d, false)
    have hplain : ¬ (p.set.foldl applySet (d, false)).1.Nests name := fun ⟨sub, hsub⟩ =>
      hd ⟨sub, hkept.symm.trans hsub⟩
    rw [apply, run, get?_foldl_applyUnset_of_not_nests hp.unset hplain, hkept]

end OnlyBelow

end Patch

end RecordStore
