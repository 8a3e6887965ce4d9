import RecordStore.Proofs.Query.Growth

namespace RecordStore

theorem Path.join_intercalate {above : List String} (h : ∀ name ∈ above, name ≠ "")
    (name : String) :
    Path.join (".".intercalate above) name = ".".intercalate (above ++ [name]) := by
  cases above with
  | nil => rfl
  | cons first rest =>
    have hne : ".".intercalate (first :: rest) ≠ "" := by
      cases rest with
      | nil => exact h first List.mem_cons_self
      | cons => simp [String.intercalate_cons_cons]
    rw [Path.join_of_ne hne, String.intercalate_append_of_ne_nil (List.cons_ne_nil _ _)
      (List.cons_ne_nil _ _), String.intercalate_singleton]

theorem looksLikeOperator_dotted {name : String} (h : looksLikeOperator name = false)
    (rest : String) : looksLikeOperator (name ++ "." ++ rest) = false := by
  have hl : (name ++ "." ++ rest).toList = name.toList ++ '.' :: rest.toList := by simp
  unfold looksLikeOperator at h ⊢
  rw [hl]
  cases hn : name.toList with
  | nil => rfl
  | cons c cs => rwa [hn] at h

inductive Value.NamesThroughout : Value → Prop
  | leaf {v : Value} (hv : ∀ d, v ≠ .document d) : NamesThroughout v
  | level {level : Document} (hk : level.OnlyAttributes) (hne : ∀ e ∈ level, e.1 ≠ "")
      (hv : ∀ e ∈ level, NamesThroughout e.2) : NamesThroughout (.document level)

theorem Value.namesThroughout_document {level : Document} :
    (Value.document level).NamesThroughout ↔
      ∀ e ∈ level, looksLikeOperator e.1 = false ∧ e.1 ≠ "" ∧ e.2.NamesThroughout := by
  constructor
  · intro h
    cases h with
    | leaf hv => exact absurd rfl (hv level)
    | level hk hne hv => exact fun e he => ⟨hk e he, hne e he, hv e he⟩
  · exact fun h => .level (fun e he => (h e he).1) (fun e he => (h e he).2.1)
      fun e he => (h e he).2.2

mutual

/-- The values that are not documents, in their order, each with the names that lead to it. -/
def Value.leaves (above : List String) : Value → List (List String × Value)
  | .document level => entryLeaves above level
  | v => [(above, v)]

def entryLeaves (above : List String) : List (String × Value) → List (List String × Value)
  | [] => []
  | (name, v) :: entries => v.leaves (above ++ [name]) ++ entryLeaves above entries

end

mutual

def Value.levels : Value → Nat
  | .document level => entryLevels level + 1
  | _ => 0

def entryLevels : List (String × Value) → Nat
  | [] => 0
  | (_, v) :: entries => max v.levels (entryLevels entries)

end

def leafCondition (leaf : List String × Value) : Expression :=
  .compare (".".intercalate leaf.1) (if leaf.2.isArray then .isIn else .equal) leaf.2

namespace QueryRules

variable {r : QueryRules} {depth : Nat} {path : String}

def AllowsLeaves (r : QueryRules) (leaves : List (List String × Value)) : Prop :=
  ∀ leaf ∈ leaves, ∀ items, leaf.2 = .array items → items.length ≤ r.maxInSet

theorem allowsLeaves_append {ls ms : List (List String × Value)} :
    r.AllowsLeaves (ls ++ ms) ↔ r.AllowsLeaves ls ∧ r.AllowsLeaves ms :=
  List.forall_mem_append

mutual

theorem lowers_iff_leaves (v : Value) (hv : v.NamesThroughout) {above : List String}
    (ha : ∀ name ∈ above, name ≠ "") {depth : Nat} {es : List Expression} :
    r.Lowers depth (".".intercalate above) v es ↔
      v.levels ≤ r.maxDepth + 1 - depth ∧ r.AllowsLeaves (v.leaves above) ∧
        (v.leaves above).map leafCondition = es := by
  cases v with
  | document level =>
    have hlevel := Value.namesThroughout_document.mp hv
    have hk : Document.OnlyAttributes level := fun e he => (hlevel e he).1
    have hdepth : depth ≤ r.maxDepth ∧ entryLevels level ≤ r.maxDepth - depth ↔
        entryLevels level + 1 ≤ r.maxDepth + 1 - depth := by omega
    simp only [lowers_document, entriesLower_iff_leaves level hlevel ha, hk, true_or, true_and,
      Value.levels, Value.leaves, ← hdepth, and_assoc]
  | array items =>
    simp [lowers_array, Value.levels, Value.leaves, AllowsLeaves, leafCondition, Value.isArray]
  | _ =>
    rw [lowers_plain (by simp [Value.IsPlain])]
    simp [Value.levels, Value.leaves, AllowsLeaves, leafCondition, Value.isArray]

theorem entriesLower_iff_leaves (entries : List (String × Value))
    (h : ∀ e ∈ entries, looksLikeOperator e.1 = false ∧ e.1 ≠ "" ∧ e.2.NamesThroughout)
    {above : List String} (ha : ∀ name ∈ above, name ≠ "") {depth : Nat} {es : List Expression} :
    r.EntriesLower depth (".".intercalate above) entries es ↔
      entryLevels entries ≤ r.maxDepth - depth ∧ r.AllowsLeaves (entryLeaves above entries) ∧
        (entryLeaves above entries).map leafCondition = es := by
  cases entries with
  | nil =>
    constructor
    · rintro ⟨⟩
      exact ⟨Nat.zero_le _, List.forall_mem_nil _, rfl⟩
    · rintro ⟨-, -, rfl⟩
      exact .nil
  | cons e entries =>
    obtain ⟨name, v⟩ := e
    obtain ⟨⟨hk, hne, hv⟩, hentries⟩ := List.forall_mem_cons.mp h
    have hbelow : ∀ n ∈ above ++ [name], n ≠ "" :=
      List.forall_mem_append.mpr ⟨ha, List.forall_mem_singleton.mpr hne⟩
    -- one level less is left for what stands below the name
    have hhead (fs : List Expression) :
        r.EntryLowers depth (".".intercalate above) (name, v) fs ↔
          v.levels ≤ r.maxDepth - depth ∧ r.AllowsLeaves (v.leaves (above ++ [name])) ∧
            (v.leaves (above ++ [name])).map leafCondition = fs := by
      rw [entryLowers_attribute hk, Path.join_intercalate ha, lowers_iff_leaves v hv hbelow,
        Nat.add_sub_add_right]
      exact and_iff_right hne
    have hrest (gs : List Expression) := @entriesLower_iff_leaves entries hentries above ha depth gs
    rw [entryLevels, entryLeaves, allowsLeaves_append, List.map_append, Nat.max_le]
    constructor
    · rintro (_ | ⟨he, hes⟩)
      obtain ⟨hdv, hlv, rfl⟩ := (hhead _).mp he
      obtain ⟨hds, hls, rfl⟩ := (hrest _).mp hes
      exact ⟨⟨hdv, hds⟩, ⟨hlv, hls⟩, rfl⟩
    · rintro ⟨⟨hdv, hds⟩, ⟨hlv, hls⟩, rfl⟩
      exact .cons ((hhead _).mpr ⟨hdv, hlv, rfl⟩) ((hrest _).mpr ⟨hds, hls, rfl⟩)

end

structure WithinLimits (r : QueryRules) (query : Document) : Prop where
  levels : (Value.document query).levels ≤ max r.maxDepth 1
  leaves : r.AllowsLeaves (entryLeaves [] query)

theorem compile_of_namesThroughout {query : Document} (h : (Value.document query).NamesThroughout)
    {es : List Expression} :
    r.compile query = .ok es ↔
      r.WithinLimits query ∧ (entryLeaves [] query).map leafCondition = es := by
  have hlevel := Value.namesThroughout_document.mp h
  have hk : query.OnlyAttributes := fun e he => (hlevel e he).1
  have hdepth : entryLevels query ≤ r.maxDepth - 1 ↔
      (Value.document query).levels ≤ max r.maxDepth 1 := by
    rw [Value.levels]
    omega
  have hes := @entriesLower_iff_leaves r query hlevel [] (List.forall_mem_nil _) 1 es
  rw [compile_eq_ok_iff, and_iff_right (.inl hk)]
  exact hes.trans ⟨fun ⟨hd, hl, hmap⟩ => ⟨⟨hdepth.mp hd, hl⟩, hmap⟩,
    fun ⟨⟨hd, hl⟩, hmap⟩ => ⟨hdepth.mpr hd, hl, hmap⟩⟩

end QueryRules

/-- A level of attributes is written into the level above it, where it stood. -/
inductive Document.Flattens : Document → Document → Prop
  | attributes (front back : Document) {name : String} (hk : looksLikeOperator name = false)
      {inner : Document} (hi : inner.OnlyAttributes) :
      Flattens (front ++ (name, .document inner) :: back)
        (front ++ (inner.map (fun e => (name ++ "." ++ e.1, e.2)) ++ back))

namespace QueryRules

variable {r : QueryRules} {depth : Nat} {path : String}

theorem covers_up : r.Covers r depth (depth + 1) where
  vocabulary _ _ := id
  depth := by omega
  set := Nat.le_refl _

theorem entriesLower_dotted {name : String} (hk : looksLikeOperator name = false) (hne : name ≠ "")
    {inner : Document} (hi : inner.OnlyAttributes) {es : List Expression}
    (h : r.EntriesLower (depth + 1) (Path.join path name) inner es) :
    r.EntriesLower depth path (inner.map fun e => (name ++ "." ++ e.1, e.2)) es := by
  induction h with
  | nil => exact .nil
  | @cons e entries _ _ he _ ih =>
    obtain ⟨attr, v⟩ := e
    obtain ⟨hattr, hentries⟩ := List.forall_mem_cons.mp hi
    obtain ⟨-, hv⟩ := (entryLowers_attribute hattr).mp he
    rw [Path.join_join hne, Path.join_of_ne hne] at hv
    have hdotted : name ++ "." ++ attr ≠ "" := by simp
    -- the value stands one level higher now, where no less is allowed
    have hup := lowers_of_covers v covers_up hv
    exact .cons (.field (looksLikeOperator_dotted hk attr) hdotted hup) (ih hentries)

theorem compilesLike_of_flattens {d e : Document} (h : d.Flattens e) :
    r.CompilesLike (· = ·) d e := by
  cases h with
  | @attributes front back name hk inner hi =>
    have hname : ¬ Document.OnlyOperators [(name, Value.document inner)] := fun ho =>
      Bool.false_ne_true (hk.symm.trans (ho _ List.mem_cons_self))
    have hlevel : r.CompilesLike (· = ·) [(name, .document inner)]
        (inner.map fun e => (name ++ "." ++ e.1, e.2)) := {
      attributes := fun _ => List.forall_mem_map.mpr fun e _ => looksLikeOperator_dotted hk e.1
      operators := fun ho => absurd ho hname
      combinators := fun ho => absurd ho hname
      entries := fun hes => by
        obtain ⟨hne, hv⟩ := (entryLowers_attribute hk).mp (entriesLower_singleton.mp hes)
        obtain ⟨-, -, hinner⟩ := lowers_document.mp hv
        exact ⟨_, entriesLower_dotted hk hne hi hinner, rfl⟩ }
    exact hlevel.between congruence_eq front back

/-- A query of attributes comes to its values in their order, and to flatten a level of attributes,
anywhere in a query that is accepted, changes nothing. -/
theorem compile_attributes (r : QueryRules) (query : Document) :
    ((Value.document query).NamesThroughout →
      ∀ es, r.compile query = .ok es ↔
        r.WithinLimits query ∧ (entryLeaves [] query).map leafCondition = es) ∧
    ∀ other, r.vocabulary.ChangesLevel Document.Flattens query other →
      ∀ es, r.compile query = .ok es → r.compile other = .ok es := by
  refine ⟨fun h es => compile_of_namesThroughout h, fun other h es hes => ?_⟩
  have hlike := h.compilesLike congruence_eq fun _ _ => compilesLike_of_flattens
  obtain ⟨_, hother, rfl⟩ := hlike.compile hes
  exact hother

/-- A name with a point, an empty document that leaves nothing, and a level written out below a
quantifier of an alternative. -/
theorem compile_attributes_film :
    let r : QueryRules := ⟨.standard, 6, 2⟩
    let query : Document := [("title.en", .document [("short", .null), ("notes", .document [])]),
      ("year", .array [.int32 1979, .int32 1986])]
    let es : List Expression := [.compare "title.en.short" .equal .null,
      .compare "year" .isIn (.array [.int32 1979, .int32 1986])]
    let nested : Document := [("$or", .array [.document [("cast", .document [("$some", .document [
      ("by", .document [("id", .document [("$gt", .int32 3)]), ("name", .string "Ann")])])])]])]
    let flat : Document := [("$or", .array [.document [("cast", .document [("$some", .document [
      ("by.id", .document [("$gt", .int32 3)]), ("by.name", .string "Ann")])])]])]
    let fs : List Expression := [.combine "" .or [[.quantify "cast" .anyItem [
      .compare "by.id" .greaterThan (.int32 3), .compare "by.name" .equal (.string "Ann")]]]]
    (Value.document query).NamesThroughout ∧ r.compile query = .ok es ∧
      (r.WithinLimits query ∧ (entryLeaves [] query).map leafCondition = es) ∧
      r.vocabulary.ChangesLevel Document.Flattens nested flat ∧
      r.compile nested = .ok fs ∧ r.compile flat = .ok fs := by
  intro r query es nested flat fs
  have hnames : (Value.document query).NamesThroughout := by
    refine Value.namesThroughout_document.mpr (List.forall_mem_cons.mpr
      ⟨⟨rfl, by decide, ?_⟩, List.forall_mem_singleton.mpr ⟨rfl, by decide, .leaf nofun⟩⟩)
    refine Value.namesThroughout_document.mpr (List.forall_mem_cons.mpr
      ⟨⟨rfl, by decide, .leaf nofun⟩, List.forall_mem_singleton.mpr ⟨rfl, by decide, ?_⟩⟩)
    exact Value.namesThroughout_document.mpr (List.forall_mem_nil _)
  have hes : r.compile query = .ok es := rfl
  have hleaves := ((compile_attributes r query).1 hnames es).mp hes
  have hor : r.vocabulary.Spells "$or" .or := Vocabulary.spells_standard rfl
  have hinner : Document.OnlyAttributes
      [("id", .document [("$gt", .int32 3)]), ("name", .string "Ann")] :=
    List.forall_mem_cons.mpr ⟨rfl, List.forall_mem_singleton.mpr rfl⟩
  have hflat : r.vocabulary.ChangesLevel Document.Flattens nested flat :=
    .branch [] [] hor rfl [] [] (.entry [] [] "cast" (.entry [] [] "$some"
      (.here (.attributes [] [] rfl hinner))))
  have hfs : r.compile nested = .ok fs := rfl
  exact ⟨hnames, hes, hleaves, hflat, hfs, (compile_attributes r nested).2 flat hflat fs hfs⟩

end QueryRules

end RecordStore
