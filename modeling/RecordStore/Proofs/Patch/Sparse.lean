import RecordStore.Proofs.Patch.Frame

namespace RecordStore

/-- A document that marks one of its own attributes for removal. -/
def Document.Marks (d : Document) : Prop := ∃ name, (name, Value.undefined) ∈ d

def Value.Marks : Value → Prop
  | .document sub => Document.Marks sub
  | _ => False

/-- What a sparse document gives for a path. A nested document with marks of its own is not given
as a whole: what it holds is. -/
inductive Document.Gives : Document → String → Value → Prop
  | here {d : Document} {name : String} {v : Value} (h : (name, v) ∈ d) (hv : ¬ v.Marks) :
      Gives d name v
  | nested {d : Document} {name : String} {sub : Document} {path : String} {v : Value}
      (h : (name, .document sub) ∈ d) (hs : Document.Marks sub) (hv : Gives sub path v) :
      Gives d (name ++ "." ++ path) v

def Value.verdict (v : Value) : Option Value := if v.isUndefined then none else some v.strip

theorem Value.verdict_eq_none_iff {v : Value} : v.verdict = none ↔ v = .undefined := by
  cases v <;> simp [verdict, isUndefined]

theorem Value.verdict_eq_some_iff {v w : Value} :
    v.verdict = some w ↔ v.isUndefined = false ∧ v.strip = w := by
  cases h : v.isUndefined <;> simp [verdict, h]

namespace Document

theorem marksFields_iff {d : Document} : d.marksFields = true ↔ d.Marks := by
  rw [marksFields, List.any_eq_true]
  constructor
  · rintro ⟨⟨name, v⟩, he, hv⟩
    cases v with
    | undefined => exact ⟨name, he⟩
    | _ => cases hv
  · rintro ⟨name, he⟩
    exact ⟨_, he, rfl⟩

section Gives

variable {d : Document} {name path : String} {v w : Value}

theorem gives_cons_iff :
    Gives ((name, v) :: d) path w ↔ Gives [(name, v)] path w ∨ Gives d path w := by
  constructor
  · rintro (⟨h, hv⟩ | ⟨h, hs, hv⟩)
    · obtain h | h := List.mem_cons.mp h
      · exact .inl (.here (List.mem_singleton.mpr h) hv)
      · exact .inr (.here h hv)
    · obtain h | h := List.mem_cons.mp h
      · exact .inl (.nested (List.mem_singleton.mpr h) hs hv)
      · exact .inr (.nested h hs hv)
  · rintro ((⟨h, hv⟩ | ⟨h, hs, hv⟩) | (⟨h, hv⟩ | ⟨h, hs, hv⟩))
    · exact .here (List.mem_cons.mpr (.inl (List.mem_singleton.mp h))) hv
    · exact .nested (List.mem_cons.mpr (.inl (List.mem_singleton.mp h))) hs hv
    · exact .here (List.mem_cons_of_mem _ h) hv
    · exact .nested (List.mem_cons_of_mem _ h) hs hv

theorem not_gives_nil : ¬ Gives [] path v := by
  rintro (⟨h, -⟩ | ⟨h, -, -⟩) <;> exact nomatch h

theorem gives_singleton_of_marks {sub : Document} (h : Value.Marks (.document sub)) :
    Gives [(name, .document sub)] path w ↔ ∃ q, path = name ++ "." ++ q ∧ sub.Gives q w := by
  constructor
  · rintro (⟨he, hv⟩ | ⟨he, hs, hv⟩)
    · obtain ⟨rfl, rfl⟩ := Prod.mk.inj (List.mem_singleton.mp he)
      exact absurd h hv
    · obtain ⟨rfl, hsub⟩ := Prod.mk.inj (List.mem_singleton.mp he)
      obtain rfl := Value.document.inj hsub
      exact ⟨_, rfl, hv⟩
  · rintro ⟨q, rfl, hq⟩
    exact .nested (List.mem_singleton.mpr rfl) h hq

theorem gives_singleton_of_not_marks (h : ¬ v.Marks) :
    Gives [(name, v)] path w ↔ path = name ∧ w = v := by
  constructor
  · rintro (⟨he, -⟩ | ⟨he, hs, -⟩)
    · obtain ⟨rfl, rfl⟩ := Prod.mk.inj (List.mem_singleton.mp he)
      exact ⟨rfl, rfl⟩
    · obtain ⟨rfl, rfl⟩ := Prod.mk.inj (List.mem_singleton.mp he)
      exact absurd hs h
  · rintro ⟨rfl, rfl⟩
    exact .here (List.mem_singleton.mpr rfl) h

end Gives

end Document

namespace Patch

/-- A patch assigns a value at a path, or removes what is there. -/
def Says (p : Patch) (path : String) : Option Value → Prop
  | some v => (path, v) ∈ p.set
  | none => path ∈ p.unset

def under (parent : String) (p : Patch) : Patch :=
  ⟨p.set.map fun e => (Path.join parent e.1, e.2), p.unset.map (Path.join parent)⟩

variable {p q : Patch} {path parent name : String} {o : Option Value}

theorem says_append : (p.append q).Says path o ↔ p.Says path o ∨ q.Says path o := by
  cases o <;> exact List.mem_append

theorem says_under : (p.under parent).Says path o ↔
    ∃ q, path = Path.join parent q ∧ p.Says q o := by
  cases o with
  | none =>
    simp only [Says, under, List.mem_map]
    exact exists_congr fun q => ⟨fun h => ⟨h.2.symm, h.1⟩, fun h => ⟨h.2, h.1.symm⟩⟩
  | some v =>
    simp only [Says, under, List.mem_map, Prod.mk.injEq]
    constructor
    · rintro ⟨⟨q, _⟩, he, rfl, rfl⟩
      exact ⟨q, rfl, he⟩
    · rintro ⟨q, rfl, he⟩
      exact ⟨(q, v), he, rfl, rfl⟩

theorem paths_append_perm : (p.append q).paths.Perm (p.paths ++ q.paths) := by
  simp only [paths, append, List.map_append, List.append_assoc]
  apply List.Perm.append_left
  rw [← List.append_assoc, ← List.append_assoc]
  apply List.Perm.append_right
  exact List.perm_append_comm

theorem paths_under : (p.under parent).paths = p.paths.map (Path.join parent) := by
  simp [paths, under, Function.comp_def]

theorem under_append : (p.append q).under parent = (p.under parent).append (q.under parent) := by
  simp [under, append]

end Patch

mutual

theorem patchAt_join {path : String} (h : path ≠ "") (parent : String) (v : Value) :
    v.patchAt (Path.join parent path) = (v.patchAt path).under parent := by
  cases v with
  | document sub =>
    rw [Value.patchAt, Value.patchAt]
    split
    · exact patchEntries_join h parent sub
    · rfl
  | _ => rfl

theorem patchEntries_join {path : String} (h : path ≠ "") (parent : String)
    (entries : List (String × Value)) :
    patchEntries (Path.join parent path) entries = (patchEntries path entries).under parent := by
  cases entries with
  | nil => rfl
  | cons e entries =>
    obtain ⟨name, v⟩ := e
    have hne : Path.join path name ≠ "" := by simp [Path.join, h]
    rw [patchEntries, patchEntries, Path.join_join h, patchAt_join hne parent v,
      patchEntries_join h parent entries, Patch.under_append]

end

theorem patchEntries_eq_under {d : Document} (h : ∀ name ∈ d.keys, Path.IsName name)
    (parent : String) : patchEntries parent d = (Patch.ofDocument d).under parent := by
  induction d with
  | nil => rfl
  | cons e d ih =>
    obtain ⟨name, v⟩ := e
    obtain ⟨hn, hd⟩ := List.forall_mem_cons.mp h
    rw [patchEntries, Patch.ofDocument_cons, Patch.under_append, ih hd, patchAt_join hn.1]

theorem patchAt_of_marks {sub : Document} (hs : sub.isNamed = true) (hm : Value.Marks (.document sub))
    (name : String) : (Value.document sub).patchAt name = (Patch.ofDocument sub).under name := by
  have hnames := (Document.isNamed_iff.mp hs).2.1
  rw [Value.patchAt, if_pos (Document.marksFields_iff.mpr hm), patchEntries_eq_under hnames]

theorem says_patchAt_of_not_marks {v : Value} (h : ¬ v.Marks) (name : String) {path : String}
    {o : Option Value} : (v.patchAt name).Says path o ↔
      ∃ w, Document.Gives [(name, v)] path w ∧ w.verdict = o := by
  have hgives : (∃ w, Document.Gives [(name, v)] path w ∧ w.verdict = o) ↔
      path = name ∧ v.verdict = o := by
    simp only [Document.gives_singleton_of_not_marks h]
    exact ⟨fun ⟨_, ⟨hp, hw⟩, ho⟩ => ⟨hp, hw ▸ ho⟩, fun ⟨hp, ho⟩ => ⟨v, ⟨hp, rfl⟩, ho⟩⟩
  rw [hgives]
  cases v with
  | document sub =>
    rw [Value.patchAt, if_neg fun hm => h (Document.marksFields_iff.mp hm)]
    cases o <;> simp [Patch.Says, Value.verdict, Value.isUndefined, Value.strip, eq_comm]
  | _ => cases o <;> simp [Patch.Says, Value.patchAt, Value.verdict, Value.isUndefined, eq_comm]

mutual

theorem says_patchAt {name : String} (hn : name ≠ "") (v : Value) (hv : v.isNamed = true)
    {path : String} {o : Option Value} :
    (v.patchAt name).Says path o ↔ ∃ w, Document.Gives [(name, v)] path w ∧ w.verdict = o := by
  cases v with
  | document sub =>
    by_cases hm : Value.Marks (.document sub)
    · rw [patchAt_of_marks hv hm, Patch.says_under]
      simp only [says_ofDocument sub hv, Document.gives_singleton_of_marks hm, Path.join_of_ne hn]
      constructor
      · rintro ⟨q, rfl, w, hw, ho⟩
        exact ⟨w, ⟨q, rfl, hw⟩, ho⟩
      · rintro ⟨w, ⟨q, rfl, hw⟩, ho⟩
        exact ⟨q, rfl, w, hw, ho⟩
    · exact says_patchAt_of_not_marks hm name
  | _ => exact says_patchAt_of_not_marks id name

theorem says_ofDocument (d : Document) (h : d.isNamed = true) {path : String}
    {o : Option Value} :
    (Patch.ofDocument d).Says path o ↔ ∃ v, d.Gives path v ∧ v.verdict = o := by
  cases d with
  | nil =>
    constructor
    · cases o <;> exact fun h => nomatch h
    · rintro ⟨v, hv, -⟩
      exact absurd hv Document.not_gives_nil
  | cons e d =>
    obtain ⟨name, v⟩ := e
    obtain ⟨-, hn, hv, hd⟩ := Document.isNamed_cons_iff.mp h
    rw [Patch.ofDocument_cons, Patch.says_append, says_patchAt hn.1 v hv, says_ofDocument d hd]
    simp only [Document.gives_cons_iff (d := d), or_and_right, exists_or]

end

mutual

theorem pairwise_patchAt {name : String} (hn : name ≠ "") (v : Value) (hv : v.isNamed = true) :
    (v.patchAt name).paths.Pairwise Path.Apart := by
  cases v with
  | document sub =>
    by_cases hm : Value.Marks (.document sub)
    · rw [patchAt_of_marks hv hm, Patch.paths_under, List.pairwise_map]
      refine (pairwise_ofDocument sub hv).imp fun h => ?_
      rw [Path.join_of_ne hn, Path.join_of_ne hn]
      exact h.append name
    · rw [Value.patchAt, if_neg (fun h => hm (Document.marksFields_iff.mp h))]
      exact List.pairwise_singleton _ _
  | _ => exact List.pairwise_singleton _ _

theorem pairwise_ofDocument (d : Document) (h : d.isNamed = true) :
    (Patch.ofDocument d).paths.Pairwise Path.Apart := by
  cases d with
  | nil => exact List.Pairwise.nil
  | cons e d =>
    obtain ⟨name, v⟩ := e
    obtain ⟨hne, hn, hv, hd⟩ := Document.isNamed_cons_iff.mp h
    rw [Patch.ofDocument_cons,
      Patch.paths_append_perm.pairwise_iff Path.Apart.symm]
    refine List.pairwise_append.mpr ⟨pairwise_patchAt hn.1 v hv, pairwise_ofDocument d hd, ?_⟩
    intro p hp q hq
    -- what is below different attributes is apart
    apply Path.apart_of_first_ne
    have hfirst := first_of_mem_patchAt hn.1 hp
    have hother := first_of_mem_ofDocument (Document.isNamed_iff.mp hd).2.1 q hq
    rw [hfirst, Path.ofString_of_isName hn]
    rintro rfl
    exact hne hother

end

end RecordStore
