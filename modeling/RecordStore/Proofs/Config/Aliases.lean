import RecordStore.Config
import RecordStore.Proofs.Query.Parsed

namespace RecordStore

theorem Vocabulary.resolve?_foldl_withExtension (extensions : List String) (v : Vocabulary)
    (token : String) :
    (extensions.foldl withExtension v).resolve? token =
      (v.resolve? token).or (if token ∈ extensions then some (.extension token) else none) := by
  induction extensions generalizing v with
  | nil => simp
  | cons e extensions ih =>
    rw [List.foldl_cons, ih, resolve?_withExtension]
    by_cases he : token = e
    · subst he
      cases v.resolve? token <;> simp
    · simp [he]

namespace StoreConfig

variable {v w : Vocabulary} {aliases : List (String × String)} {spelling target : String}

theorem addAliases_cons_eq_ok :
    addAliases v ((spelling, target) :: aliases) = .ok w ↔
      ∃ u, v.withAlias? spelling target = some u ∧ addAliases u aliases = .ok w := by
  rw [addAliases]
  cases v.withAlias? spelling target <;> simp

theorem resolve?_addAliases (h : addAliases v aliases = .ok w) {token : String}
    (ht : token ∉ aliases.map Prod.fst) : w.resolve? token = v.resolve? token := by
  induction aliases generalizing v with
  | nil => rw [Except.ok.inj h]
  | cons e aliases ih =>
    obtain ⟨u, hu, hrest⟩ := addAliases_cons_eq_ok.mp h
    rw [List.map_cons, List.mem_cons, not_or] at ht
    rw [ih hrest ht.2, Vocabulary.resolve?_withAlias? hu, if_neg ht.1]

/-- Whether a target is itself an alias, and one that is added after the spelling for it. -/
def Redefined (aliases : List (String × String)) (spelling target : String) : Prop :=
  spelling < target ∧ target ∈ aliases.map Prod.fst

instance (aliases : List (String × String)) (spelling target : String) :
    Decidable (Redefined aliases spelling target) :=
  inferInstanceAs (Decidable (_ ∧ _))

/-- Aliases are added in increasing order, so that a target changes its meaning after it was used
only if it is itself a later alias. The alias then stands for what the target meant at first. -/
theorem resolve?_addAliases_of_mem (hs : aliases.Pairwise (·.1 < ·.1))
    (h : addAliases v aliases = .ok w) (hm : (spelling, target) ∈ aliases) :
    ∃ op, w.resolve? spelling = some op ∧
      (¬ Redefined aliases spelling target → w.resolve? target = some op) ∧
      (Redefined aliases spelling target → v.resolve? target = some op) := by
  induction aliases generalizing v with
  | nil => exact nomatch hm
  | cons e aliases ih =>
    obtain ⟨u, hu, hrest⟩ := addAliases_cons_eq_ok.mp h
    obtain ⟨hfirst, hs⟩ := List.pairwise_cons.mp hs
    have hlater : ∀ s ∈ aliases.map Prod.fst, e.1 < s := List.forall_mem_map.mpr hfirst
    have hnew := Vocabulary.resolve?_withAlias? hu
    obtain hm | hm := List.mem_cons.mp hm
    · subst hm
      obtain ⟨op, hop, -⟩ := Option.map_eq_some_iff.mp hu
      have hkept : spelling ∉ aliases.map Prod.fst := fun hmem =>
        String.lt_irrefl _ (hlater _ hmem)
      have hspelling : w.resolve? spelling = some op := by
        rw [resolve?_addAliases hrest hkept, hnew, if_pos rfl, hop]
      refine ⟨op, hspelling, fun hn => ?_, fun _ => hop⟩
      by_cases hself : target = spelling
      · rw [hself, hspelling]
      · have htarget : target ∉ aliases.map Prod.fst := fun hmem =>
          hn ⟨hlater _ hmem, List.mem_cons_of_mem _ hmem⟩
        rw [resolve?_addAliases hrest htarget, hnew, if_neg hself, hop]
    · obtain ⟨op, hspelling, hkept, hhidden⟩ := ih hs hrest hm
      refine ⟨op, hspelling, fun hn => hkept fun hl => hn ⟨hl.1, List.mem_cons_of_mem _ hl.2⟩, ?_⟩
      rintro ⟨hlt, hmem⟩
      have hbefore : e.1 < target := String.lt_trans (hfirst _ hm) hlt
      have hne : target ≠ e.1 := fun he => String.lt_irrefl _ (he ▸ hbefore)
      have hmem := (List.mem_cons.mp hmem).resolve_left hne
      rw [← hhidden ⟨hlt, hmem⟩, hnew, if_neg hne]

/-- The aliases of a configuration are a table in the order of the spellings. -/
def AliasesSorted (c : StoreConfig) : Prop := c.aliases.Pairwise (·.1 < ·.1)

instance (c : StoreConfig) : Decidable c.AliasesSorted :=
  inferInstanceAs (Decidable (List.Pairwise _ _))

theorem mem_insertAlias {e : String × String} (h : e ∈ insertAlias spelling target aliases) :
    e = (spelling, target) ∨ e ∈ aliases := by
  induction aliases with
  | nil => exact .inl (List.mem_singleton.mp h)
  | cons f aliases ih =>
    rw [insertAlias] at h
    split at h
    · exact List.mem_cons.mp h
    · split at h
      · exact (List.mem_cons.mp h).imp_right (List.mem_cons_of_mem _)
      · obtain rfl | h := List.mem_cons.mp h
        · exact .inr List.mem_cons_self
        · exact (ih h).imp_right (List.mem_cons_of_mem _)

theorem pairwise_insertAlias (hs : aliases.Pairwise (·.1 < ·.1)) :
    (insertAlias spelling target aliases).Pairwise (·.1 < ·.1) := by
  induction aliases with
  | nil => exact List.pairwise_singleton _ _
  | cons f aliases ih =>
    obtain ⟨hf, hrest⟩ := List.pairwise_cons.mp hs
    rw [insertAlias]
    split
    case isTrue hlt =>
      refine List.pairwise_cons.mpr ⟨List.forall_mem_cons.mpr ⟨hlt, fun e he => ?_⟩, hs⟩
      exact String.lt_trans hlt (hf e he)
    case isFalse hge =>
      split
      case isTrue heq =>
        subst heq
        exact List.pairwise_cons.mpr ⟨hf, hrest⟩
      case isFalse hne =>
        refine List.pairwise_cons.mpr ⟨fun e he => ?_, ih hrest⟩
        obtain rfl | he := mem_insertAlias he
        · exact Std.lt_of_le_of_ne (String.not_lt.mp hge) (Ne.symm hne)
        · exact hf e he

theorem pairwise_sortAliases (entries : List (String × String)) :
    (sortAliases entries).Pairwise (·.1 < ·.1) := by
  suffices h : ∀ sorted : List (String × String), sorted.Pairwise (·.1 < ·.1) →
      (entries.foldl (fun sorted e => insertAlias e.1 e.2 sorted) sorted).Pairwise (·.1 < ·.1) from
    h [] .nil
  induction entries with
  | nil => exact fun _ h => h
  | cons e entries ih => exact fun sorted h => ih _ (pairwise_insertAlias h)

theorem aliasesSorted_ofToml? {t : TomlTable} {c : StoreConfig} (h : ofToml? t = some c) :
    c.AliasesSorted := by
  simp only [ofToml?, Option.bind_eq_bind, Option.bind_eq_some_iff, Option.pure_def,
    Option.some.injEq] at h
  obtain ⟨_, -, _, -, _, -, entries, -, _, -, rfl⟩ := h
  exact pairwise_sortAliases entries

/-- Every configuration text that is accepted gives such a table. -/
theorem aliasesSorted_ofText {text : String} {c : StoreConfig} (h : ofText text = .ok c) :
    c.AliasesSorted := by
  unfold ofText at h
  cases ht : (TomlTable.ofText? text).bind ofToml? with
  | none => simp [ht] at h
  | some read =>
    obtain ⟨t, -, hread⟩ := Option.bind_eq_some_iff.mp ht
    rw [ht] at h
    obtain ⟨u, -, rfl⟩ := map_eq_ok.mp h
    exact aliasesSorted_ofToml? hread

/-- In a configured vocabulary, a built-in operator and an extension that is not built in are what
their own tokens stand for, unless an alias is spelled so. An alias stands for what its target
stands for, unless the target is itself a later alias; then for what the target would stand for
without any aliases. -/
theorem resolve?_configured {c : StoreConfig} {w : Vocabulary} (hs : c.AliasesSorted)
    (h : c.vocabulary = .ok w) :
    (∀ op ∈ Operator.builtins, op.token ∉ c.aliases.map Prod.fst →
      w.resolve? op.token = some op) ∧
    (∀ token ∈ c.extensions, Vocabulary.standard.resolve? token = none →
      token ∉ c.aliases.map Prod.fst → w.resolve? token = some (.extension token)) ∧
    ∀ spelling target, (spelling, target) ∈ c.aliases →
      ∃ op, w.resolve? spelling = some op ∧
        (¬ Redefined c.aliases spelling target → w.resolve? target = some op) ∧
        (Redefined c.aliases spelling target →
          (c.extensions.foldl Vocabulary.withExtension .standard).resolve? target = some op) := by
  refine ⟨fun op hop hn => ?_, fun token ht hnew hn => ?_, fun spelling target hm => ?_⟩
  · rw [resolve?_addAliases h hn, Vocabulary.resolve?_foldl_withExtension,
      Vocabulary.resolve?_standard_token op hop, Option.some_or]
  · rw [resolve?_addAliases h hn, Vocabulary.resolve?_foldl_withExtension, hnew, if_pos ht,
      Option.none_or]
  · exact resolve?_addAliases_of_mem hs h hm

/-- Two spellings of an extension, the second for the first, beside an alias that is redefined. -/
theorem resolve?_configured_near :
    let c : StoreConfig := {
      aliases := [("$around", "$near"), ("$beside", "$some"), ("$by", "$around"), ("$some", "$in")]
      extensions := ["$near"] }
    ∃ w, c.AliasesSorted ∧ c.vocabulary = .ok w ∧ w.resolve? "$near" = some (.extension "$near") ∧
      w.resolve? "$and" = some .and ∧ w.resolve? "$by" = w.resolve? "$around" ∧
      w.resolve? "$beside" = some .anyItem := by
  intro c
  have hs : c.AliasesSorted := by decide
  obtain ⟨w, hw⟩ : ∃ w, c.vocabulary = .ok w := ⟨_, rfl⟩
  obtain ⟨hbuiltins, hextensions, haliases⟩ := resolve?_configured hs hw
  have hnear := hextensions "$near" (by decide) (by decide) (by decide)
  have hand := hbuiltins .and (by decide) (by decide)
  obtain ⟨around, hby, hkept, -⟩ := haliases "$by" "$around" (by decide)
  obtain ⟨meant, hbeside, -, hhidden⟩ := haliases "$beside" "$some" (by decide)
  refine ⟨w, hs, hw, hnear, hand, ?_, ?_⟩
  · rw [hby, hkept (by decide)]
  · rw [hbeside, ← hhidden (by decide)]
    rfl

/-- A built-in operator and an extension lose their tokens, and two spellings of one meaning come
apart. -/
theorem configured_alias_hides :
    let c : StoreConfig := {
      aliases := [("$also", "$or"), ("$near", "$in"), ("$or", "$and")], extensions := ["$near"] }
    ∃ w, c.AliasesSorted ∧ c.validate = .ok () ∧ c.vocabulary = .ok w ∧
      w.resolve? Operator.or.token ≠ some .or ∧
      w.resolve? "$near" ≠ some (.extension "$near") ∧
      w.resolve? "$also" ≠ w.resolve? "$or" := by
  intro c
  exact ⟨_, by decide, rfl, rfl, by decide, by decide, by decide⟩

end StoreConfig

end RecordStore
