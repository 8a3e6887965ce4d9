import Mathlib.Logic.Relation
import RecordStore.Proofs.Query.Levels

namespace RecordStore

namespace Vocabulary

/-- The vocabularies that a vocabulary grows into: it accepts extensions, and aliases whose spelling
it does not know. -/
inductive Extends (v : Vocabulary) : Vocabulary → Prop
  | refl : Extends v v
  | extension {w : Vocabulary} (h : Extends v w) (token : String) :
      Extends v (w.withExtension token)
  | spelling {w u : Vocabulary} {spelling target : String} (h : Extends v w)
      (hnew : v.resolve? spelling = none) (hu : w.withAlias? spelling target = some u) : Extends v u

def Keeps (v w : Vocabulary) : Prop :=
  ∀ token op, v.resolve? token = some op → w.resolve? token = some op

theorem Extends.keeps {v w : Vocabulary} (h : v.Extends w) : v.Keeps w := by
  intro known op hop
  induction h with
  | refl => exact hop
  | @extension w _ token ih =>
    have hknown : ¬ (known = token ∧ w.resolve? token = none) := by
      rintro ⟨rfl, hnone⟩
      exact nomatch ih.symm.trans hnone
    rw [resolve?_withExtension, if_neg hknown, ih]
  | @spelling w u spelling target _ hnew hu ih =>
    have hknown : known ≠ spelling := by
      rintro rfl
      exact nomatch hop.symm.trans hnew
    rw [resolve?_withAlias? hu, if_neg hknown, ih]

theorem Keeps.normalize?_eq {v w : Vocabulary} (h : v.Keeps w) {token : String} {value : Value}
    {op : Operator} (hop : v.normalize? token value = some op) :
    w.normalize? token value = some op := by
  obtain ⟨written, hw, rfl⟩ := Option.map_eq_some_iff.mp hop
  rw [normalize?, h token written hw, Option.map_some]

inductive RespellsKey (w : Vocabulary) : Document → Document → Prop
  | key (front back : Document) {token other : String} {op : Operator} (v : Value)
      (ht : w.Spells token op) (ho : w.Spells other op) :
      RespellsKey w (front ++ (token, v) :: back) (front ++ (other, v) :: back)

theorem RespellsKey.symm {w : Vocabulary} {d e : Document} (h : w.RespellsKey d e) :
    w.RespellsKey e d := by
  cases h with
  | key front back v ht ho => exact .key front back v ho ht

end Vocabulary

namespace QueryRules

/-- Rules that allow at one depth all that others allow at another, with the same meaning. -/
structure Covers (r' r : QueryRules) (depth' depth : Nat) : Prop where
  vocabulary : r.vocabulary.Keeps r'.vocabulary
  depth : r.maxDepth + depth' ≤ r'.maxDepth + depth
  set : r.maxInSet ≤ r'.maxInSet

namespace Covers

variable {r r' : QueryRules} {depth depth' : Nat}

theorem succ (h : r'.Covers r depth' depth) : r'.Covers r (depth' + 1) (depth + 1) where
  vocabulary := h.vocabulary
  depth := by
    have hdepth := h.depth
    omega
  set := h.set

theorem fitsSet (h : r'.Covers r depth' depth) {op : Operator} {v : Value}
    (hs : r.FitsSet op v) : r'.FitsSet op v :=
  fun ho items hv => Nat.le_trans (hs ho items hv) h.set

theorem onlyCombinators (h : r'.Covers r depth' depth) {query : Document}
    (hc : r.OnlyCombinators query) : r'.OnlyCombinators query := by
  intro e he
  obtain ⟨op, hop, hcombinator⟩ := hc e he
  exact ⟨op, h.vocabulary e.1 op hop, hcombinator⟩

end Covers

mutual

/-- The two depths stay as far apart as they are, down to the last level. -/
theorem lowers_of_covers {r r' : QueryRules} (v : Value) {depth depth' : Nat}
    (hr : r'.Covers r depth' depth) {path : String} {es : List Expression}
    (h : r.Lowers depth path v es) : r'.Lowers depth' path v es := by
  cases v with
  | document level =>
    obtain ⟨hd, hk, hes⟩ := lowers_document.mp h
    have hdepth := hr.depth
    exact lowers_document.mpr ⟨by omega, hk, entriesLower_of_covers level hr hes⟩
  | array items =>
    obtain ⟨hlength, rfl⟩ := lowers_array.mp h
    exact lowers_array.mpr ⟨Nat.le_trans hlength hr.set, rfl⟩
  | _ =>
    obtain rfl := (lowers_plain (by simp [Value.IsPlain])).mp h
    exact (lowers_plain (by simp [Value.IsPlain])).mpr rfl

theorem entriesLower_of_covers {r r' : QueryRules} (entries : List (String × Value))
    {depth depth' : Nat} (hr : r'.Covers r depth' depth) {path : String} {es : List Expression}
    (h : r.EntriesLower depth path entries es) : r'.EntriesLower depth' path entries es := by
  cases entries with
  | nil =>
    cases h with
    | nil => exact .nil
  | cons e entries =>
    cases h with
    | cons he h =>
      refine .cons ?_ (entriesLower_of_covers entries hr h)
      cases he with
      | @field name v _ hk hne hv => exact .field hk hne (lowers_of_covers v hr.succ hv)
      | compare hk hop ha hv hs =>
        exact .compare hk (hr.vocabulary.normalize?_eq hop) ha hv (hr.fitsSet hs)
      | @quantify token v _ _ hk hop ha hv =>
        exact .quantify hk (hr.vocabulary.normalize?_eq hop) ha (lowers_of_covers v hr.succ hv)
      | @combine token items _ _ hk hop ha hitems =>
        exact .combine hk (hr.vocabulary.normalize?_eq hop) ha
          (itemsLower_of_covers items hr.succ hitems)

theorem itemsLower_of_covers {r r' : QueryRules} (items : List Value) {depth depth' : Nat}
    (hr : r'.Covers r depth' depth) {branches : List (List Expression)}
    (h : List.Forall₂ (r.Lowers depth "") items branches) :
    List.Forall₂ (r'.Lowers depth' "") items branches := by
  cases items with
  | nil =>
    cases h with
    | nil => exact .nil
  | cons v items =>
    cases h with
    | cons hv h => exact .cons (lowers_of_covers v hr hv) (itemsLower_of_covers items hr h)

end

variable {r r' : QueryRules} {query : Document} {es : List Expression}

theorem compile_of_covers (hr : r'.Covers r 1 1) (h : r.compile query = .ok es) :
    r'.compile query = .ok es := by
  obtain ⟨hk, hes⟩ := compile_eq_ok_iff.mp h
  exact compile_eq_ok_iff.mpr
    ⟨hk.imp_right (And.imp_right hr.onlyCombinators), entriesLower_of_covers query hr hes⟩

theorem compilesLike_of_respellsKey {d e : Document} (h : r.vocabulary.RespellsKey d e) :
    r.CompilesLike (· = ·) d e := by
  cases h with
  | @key front back token other op v ht ho =>
    have hresolve : r.vocabulary.resolve? other = r.vocabulary.resolve? token :=
      ho.resolves.trans ht.resolves.symm
    have hop : r.vocabulary.normalize? other v = r.vocabulary.normalize? token v :=
      (ho.normalize?_eq v).trans (ht.normalize?_eq v).symm
    have hkey : r.CompilesLike (· = ·) [(token, v)] [(other, v)] := by
      refine compilesLike_singleton (ho.marked.trans ht.marked.symm) hresolve fun hes => ?_
      refine ⟨_, ?_, rfl⟩
      cases hes with
      | field hk => simp [ht.marked] at hk
      | compare _ hd ha hv hs => exact .compare ho.marked (hop.trans hd) ha hv hs
      | quantify _ hd ha hv => exact .quantify ho.marked (hop.trans hd) ha hv
      | combine _ hd ha hitems => exact .combine ho.marked (hop.trans hd) ha hitems
    exact hkey.between congruence_eq front back

/-- The rules after extensions and new aliases, with limits that are no lower. -/
structure Widens (r r' : QueryRules) : Prop where
  vocabulary : r.vocabulary.Extends r'.vocabulary
  maxDepth : r.maxDepth ≤ r'.maxDepth
  maxInSet : r.maxInSet ≤ r'.maxInSet

theorem Widens.covers (h : r.Widens r') : r'.Covers r 1 1 where
  vocabulary := h.vocabulary.keeps
  depth := Nat.add_le_add_right h.maxDepth 1
  set := h.maxInSet

theorem compile_congr (hw : ∀ token, r'.vocabulary.resolve? token = r.vocabulary.resolve? token)
    (hd : r'.maxDepth = r.maxDepth) (hs : r'.maxInSet = r.maxInSet) :
    r'.compile query = .ok es ↔ r.compile query = .ok es := by
  refine ⟨compile_of_covers ⟨fun token op hop => ?_, ?_, Nat.le_of_eq hs⟩,
    compile_of_covers ⟨fun token op hop => ?_, ?_, Nat.le_of_eq hs.symm⟩⟩
  · exact (hw token).symm.trans hop
  · omega
  · exact (hw token).trans hop
  · omega

theorem compile_of_respells {query other : Document}
    (h : r.vocabulary.ChangesLevel r.vocabulary.RespellsKey query other)
    (hes : r.compile query = .ok es) : r.compile other = .ok es := by
  have hlike := h.compilesLike congruence_eq fun _ _ => compilesLike_of_respellsKey
  obtain ⟨_, hother, rfl⟩ := hlike.compile hes
  exact hother

/-- What a query is compiled to is settled by the operators that its keys stand for and by the
limits. It stays the same under rules that were widened and for keys in another spelling. -/
theorem compile_by_operators (r : QueryRules) (query : Document) :
    (∀ r' : QueryRules,
      (∀ token, r'.vocabulary.resolve? token = r.vocabulary.resolve? token) →
      r'.maxDepth = r.maxDepth → r'.maxInSet = r.maxInSet →
      ∀ es, r'.compile query = .ok es ↔ r.compile query = .ok es) ∧
    (∀ r' : QueryRules, r.Widens r' →
      ∀ es, r.compile query = .ok es → r'.compile query = .ok es) ∧
    ∀ query', Relation.ReflTransGen (r.vocabulary.ChangesLevel r.vocabulary.RespellsKey)
        query query' →
      ∀ es, r.compile query = .ok es ↔ r.compile query' = .ok es := by
  refine ⟨fun r' hw hd hs es => compile_congr hw hd hs,
    fun r' hr es => compile_of_covers hr.covers, fun query' h es => ?_⟩
  induction h with
  | refl => exact Iff.rfl
  | tail _ hstep ih =>
    have hback := hstep.symm fun _ _ => Vocabulary.RespellsKey.symm
    exact ih.trans ⟨compile_of_respells hstep, compile_of_respells hback⟩

/-- An extension, an alias of a known operator and higher limits; and two keys, at two depths, in
their longer spellings. -/
theorem compile_by_operators_film :
    let r : QueryRules := ⟨.standard, 4, 1⟩
    let wide : Vocabulary :=
      ⟨("$over", .greaterThan) :: (Vocabulary.standard.withExtension "$near").spellings,
        (Vocabulary.standard.withExtension "$near").extensions⟩
    let query : Document := [("cast",
      .document [("$any", .document [("age", .document [("$gt", .int32 30)])])])]
    let other : Document := [("cast",
      .document [("$some", .document [("age", .document [("$greaterThan", .int32 30)])])])]
    let es : List Expression :=
      [.quantify "cast" .anyItem [.compare "age" .greaterThan (.int32 30)]]
    r.Widens ⟨wide, 6, 100⟩ ∧
      Relation.ReflTransGen (r.vocabulary.ChangesLevel r.vocabulary.RespellsKey) query other ∧
      r.compile query = .ok es ∧ QueryRules.compile ⟨wide, 6, 100⟩ query = .ok es ∧
      (r.compile query = .ok es ↔ r.compile other = .ok es) ∧
      (QueryRules.compile ⟨⟨Vocabulary.standard.spellings, ["$near"]⟩, 4, 1⟩ query = .ok es ↔
        r.compile query = .ok es) := by
  intro r wide query other es
  let between : Document := [("cast",
    .document [("$any", .document [("age", .document [("$greaterThan", .int32 30)])])])]
  obtain ⟨hsame, hwide, hrespelled⟩ := compile_by_operators r query
  have hover : (Vocabulary.standard.withExtension "$near").withAlias? "$over" "$gt" = some wide :=
    rfl
  have hr : r.Widens ⟨wide, 6, 100⟩ :=
    ⟨.spelling (.extension .refl "$near") rfl hover, by decide, by decide⟩
  have hgt : r.vocabulary.ChangesLevel r.vocabulary.RespellsKey query between :=
    .entry [] [] "cast" (.entry [] [] "$any" (.entry [] [] "age" (.here (.key [] [] _
      (Vocabulary.spells_standard rfl) (Vocabulary.spells_standard rfl)))))
  have hany : r.vocabulary.ChangesLevel r.vocabulary.RespellsKey between other :=
    .entry [] [] "cast" (.here (.key [] [] _
      (Vocabulary.spells_standard rfl) (Vocabulary.spells_standard rfl)))
  have hkeys := (Relation.ReflTransGen.single hgt).tail hany
  have hes : r.compile query = .ok es := rfl
  exact ⟨hr, hkeys, hes, hwide _ hr es hes, hrespelled other hkeys es,
    hsame ⟨⟨Vocabulary.standard.spellings, ["$near"]⟩, 4, 1⟩ (fun _ => rfl) rfl rfl es⟩

end QueryRules

end RecordStore
