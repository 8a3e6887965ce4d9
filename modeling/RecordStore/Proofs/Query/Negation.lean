import RecordStore.Proofs.Query.Reading

namespace RecordStore

structure Vocabulary.Spells (w : Vocabulary) (token : String) (op : Operator) : Prop where
  marked : looksLikeOperator token = true
  resolves : w.resolve? token = some op

theorem Vocabulary.spells_standard {token : String} {op : Operator}
    (h : standard.resolve? token = some op) : standard.Spells token op := by
  refine ⟨?_, h⟩
  obtain ⟨front, back, hs, -⟩ := List.lookup_eq_some_iff.mp h
  have hmem : (token, op) ∈ standard.spellings := by
    rw [hs]
    exact List.mem_append_right front List.mem_cons_self
  have hall : ∀ e ∈ standard.spellings, looksLikeOperator e.1 = true := by decide
  exact hall _ hmem

section Level

variable {w : Vocabulary} {token : String}

theorem Vocabulary.Spells.normalize?_eq {op : Operator} (h : w.Spells token op) (v : Value) :
    w.normalize? token v = some (op.soften v) := by
  rw [normalize?, h.resolves, Option.map_some]

theorem levelHoldsIn_not (h : w.Spells token .not) (s : Scope) (v : Value) :
    levelHoldsIn w s [(token, v)] = !v.holdsIn w s := by
  have hop := h.normalize?_eq v
  cases v with
  | document level =>
    rw [levelHoldsIn_nested w s [] h.marked hop rfl, levelHoldsIn, Bool.and_true]
    rfl
  | _ =>
    rw [levelHoldsIn_scalar w s [] h.marked hop rfl, levelHoldsIn, Bool.and_true]
    rfl

theorem levelHoldsIn_every (h : w.Spells token .everyItem) (s : Scope) (v : Value) :
    levelHoldsIn w s [(token, v)] =
      s.items?.any fun items => items.all fun i => v.holdsIn w (.value (some i)) := by
  rw [levelHoldsIn_nested w s [] h.marked (h.normalize?_eq v) rfl, levelHoldsIn, Bool.and_true]
  rfl

theorem levelHoldsIn_some (h : w.Spells token .anyItem) (s : Scope) (v : Value) :
    levelHoldsIn w s [(token, v)] =
      s.items?.any fun items => items.any fun i => v.holdsIn w (.value (some i)) := by
  rw [levelHoldsIn_nested w s [] h.marked (h.normalize?_eq v) rfl, levelHoldsIn, Bool.and_true]
  rfl

theorem levelHoldsIn_every_iff {every any negation : String} (he : w.Spells every .everyItem)
    (ha : w.Spells any .anyItem) (hn : w.Spells negation .not) (s : Scope) (v : Value) :
    levelHoldsIn w s [(every, v)] = true ↔
      (∃ items, s.items? = some items) ∧
        levelHoldsIn w s [(any, .document [(negation, v)])] = false := by
  rw [levelHoldsIn_every he, levelHoldsIn_some ha]
  simp only [Value.holdsIn, levelHoldsIn_not hn]
  cases s.items? with
  | none => simp
  | some items => simp

theorem itemsHoldIn_documents (w : Vocabulary) (s : Scope) (queries : List Document) :
    itemsHoldIn w s (queries.map .document) = queries.map (levelHoldsIn w s) := by
  induction queries with
  | nil => rfl
  | cons q queries ih => rw [List.map_cons, itemsHoldIn, ih, Value.holdsIn, List.map_cons]

theorem levelHoldsIn_nor (h : w.Spells token .nor) (s : Scope) (queries : List Document) :
    levelHoldsIn w s [(token, .array (queries.map .document))] =
      !queries.any (levelHoldsIn w s) := by
  rw [levelHoldsIn_nestedList w s [] h.marked (h.normalize?_eq _) rfl rfl, levelHoldsIn,
    Bool.and_true, itemsHoldIn_documents]
  change (!((queries.map (levelHoldsIn w s)).any id)) = _
  rw [List.any_map, Function.id_comp]

end Level

namespace QueryRules

variable {r : QueryRules} {es fs : List Expression}

theorem attribute_of_compile {key : String} {level : Document}
    (h : r.compile [(key, .document level)] = .ok es) : looksLikeOperator key = false := by
  obtain ⟨node, hnode, -⟩ := compile_eq_ok.mp h
  obtain ⟨hk, -⟩ | ⟨-, -, hc, cs, hcs, -⟩ := parse_eq_ok.mp hnode
  · exact hk _ List.mem_cons_self
  · -- an operator that may stand at the root wants an array behind it
    obtain ⟨op, hop, hcombinator⟩ := hc _ List.mem_cons_self
    obtain ⟨_, hsoft, c, hparses, -⟩ := parseClauses_cons_eq_ok.mp hcs
    have ha : op.arity = .nestedList := of_decide_eq_true hcombinator
    rw [Vocabulary.normalize?, hop, Option.map_some, Operator.soften_of_nestedList ha] at hsoft
    obtain rfl := Option.some.inj hsoft
    obtain ⟨items, hitems, -⟩ := (parsesClause_of_nestedList ha).mp hparses
    exact nomatch hitems

theorem satisfies_attribute {name : String} {v : Value} (hn : looksLikeOperator name = false)
    (h : r.compile [(name, v)] = .ok es) (d : Document) :
    d.satisfies es = v.holdsIn r.vocabulary (.value (d.getPath (Path.ofString name))) := by
  have hfollow : (Scope.record d).follow name = .value (d.getPath (Path.ofString name)) :=
    Scope.foldl_step (.record d) _ _
  rw [Document.satisfies, allHold_compile h, levelHoldsIn_attribute _ _ _ hn, levelHoldsIn,
    Bool.and_true, hfollow]

/-- A negated condition on an attribute is met by the records that do not meet the condition, a
condition on every item by those that have an array there and do not meet the negated condition on
some item, and alternatives under a negation by those that meet none of them. -/
theorem satisfies_negated (d : Document) {negation every any nor : String}
    (hnot : r.vocabulary.Spells negation .not) (hevery : r.vocabulary.Spells every .everyItem)
    (hany : r.vocabulary.Spells any .anyItem) (hnor : r.vocabulary.Spells nor .nor) :
    (∀ name v es fs, r.compile [(name, v)] = .ok es →
      r.compile [(name, .document [(negation, v)])] = .ok fs →
      d.satisfies fs = !d.satisfies es) ∧
    (∀ name v es fs, r.compile [(name, .document [(every, v)])] = .ok es →
      r.compile [(name, .document [(any, .document [(negation, v)])])] = .ok fs →
      (d.satisfies es = true ↔
        (∃ items, d.getPath (Path.ofString name) = some (.array items)) ∧
          d.satisfies fs = false)) ∧
    ∀ (queries : List Document) es, (∀ q ∈ queries, ∃ fs, r.compile q = .ok fs) →
      r.compile [(nor, .array (queries.map .document))] = .ok es →
      (d.satisfies es = true ↔
        ∀ q ∈ queries, ∀ fs, r.compile q = .ok fs → d.satisfies fs = false) := by
  refine ⟨fun name v es fs hes hfs => ?_, fun name v es fs hes hfs => ?_,
    fun queries es hqueries hes => ?_⟩
  · have hname := attribute_of_compile hfs
    rw [satisfies_attribute hname hfs, satisfies_attribute hname hes, Value.holdsIn,
      levelHoldsIn_not hnot]
  · have hname := attribute_of_compile hes
    have hitems (items : List Value) :
        (Scope.value (d.getPath (Path.ofString name))).items? = some items ↔
          d.getPath (Path.ofString name) = some (.array items) := by
      cases d.getPath (Path.ofString name) with
      | none => simp [Scope.items?]
      | some v => cases v <;> simp [Scope.items?]
    rw [satisfies_attribute hname hfs, satisfies_attribute hname hes, Value.holdsIn, Value.holdsIn,
      levelHoldsIn_every_iff hevery hany hnot]
    simp only [hitems]
  · have hfails : ∀ q ∈ queries, levelHoldsIn r.vocabulary (.record d) q = false ↔
        ∀ fs, r.compile q = .ok fs → d.satisfies fs = false := by
      intro q hq
      obtain ⟨fs, hfs⟩ := hqueries q hq
      rw [hfs, ← allHold_compile hfs]
      exact ⟨fun h gs hgs => Except.ok.inj hgs ▸ h, fun h => h fs rfl⟩
    rw [Document.satisfies, allHold_compile hes, levelHoldsIn_nor hnor, Bool.not_eq_true',
      List.any_eq_false]
    simp only [Bool.not_eq_true]
    exact forall₂_congr hfails

/-- A year that is not before 1980, a cast of which not everybody is over thirty, and neither of two
years. -/
theorem satisfies_negated_film :
    let r : QueryRules := ⟨.standard, 5, 2⟩
    let d : Document := [("year", .int32 1986),
      ("cast", .array [.document [("age", .int32 49)], .document [("name", .string "Ash")]])]
    let under : List Expression :=
      [.quantify "cast" .anyItem [.quantify "" .not [.compare "age" .greaterThan (.int32 30)]]]
    let neither : List Expression := [.combine "" .nor [[.compare "year" .equal (.int32 1979)],
      [.combine "" .or [[.compare "year" .equal (.int32 1985)]]]]]
    r.compile [("year", .document [("$not", .document [("$lt", .int32 1980)])])] =
        .ok [.quantify "year" .not [.compare "" .lessThan (.int32 1980)]] ∧
      d.satisfies [.quantify "year" .not [.compare "" .lessThan (.int32 1980)]] =
        !d.satisfies [.compare "year" .lessThan (.int32 1980)] ∧
      r.compile [("cast", .document [("$any", .document [("$not",
        .document [("age", .document [("$gt", .int32 30)])])])])] = .ok under ∧
      (d.satisfies [.quantify "cast" .everyItem [.compare "age" .greaterThan (.int32 30)]] = true ↔
        (∃ items, d.getPath (Path.ofString "cast") = some (.array items)) ∧
          d.satisfies under = false) ∧
      d.satisfies under = true ∧ d.satisfies neither = true := by
  intro r d under neither
  obtain ⟨hnot, hevery, hnor⟩ := satisfies_negated (r := r) d
    (@Vocabulary.spells_standard "$not" _ rfl) (@Vocabulary.spells_standard "$all" _ rfl)
    (@Vocabulary.spells_standard "$any" _ rfl) (@Vocabulary.spells_standard "$nor" _ rfl)
  have hyear := hnot "year" (.document [("$lt", .int32 1980)]) _ _ rfl rfl
  have hcast := hevery "cast" (.document [("age", .document [("$gt", .int32 30)])]) _ under rfl rfl
  refine ⟨rfl, hyear, rfl, hcast, rfl, ?_⟩
  have hneither := hnor [[("year", .int32 1979)],
    [("$or", .array [.document [("year", .int32 1985)]])]] neither
    (List.forall_mem_cons.mpr ⟨⟨_, rfl⟩, List.forall_mem_singleton.mpr ⟨_, rfl⟩⟩) rfl
  refine hneither.mpr (List.forall_mem_cons.mpr ⟨fun fs hfs => ?_,
    List.forall_mem_singleton.mpr fun fs hfs => ?_⟩)
  · obtain rfl : [.compare "year" .equal (.int32 1979)] = fs := Except.ok.inj hfs
    rfl
  · obtain rfl : [.combine "" .or [[.compare "year" .equal (.int32 1985)]]] = fs :=
      Except.ok.inj hfs
    rfl

end QueryRules

end RecordStore
