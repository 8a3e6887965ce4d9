import Mathlib.Data.List.Perm.Basic
import Mathlib.Logic.Relation
import RecordStore.Proofs.Query.Levels

namespace RecordStore

namespace Operator

theorem memberOf_of_perm {xs ys : List Value} (h : xs.Perm ys) (field : Option Value) :
    memberOf field (.array xs) = memberOf field (.array ys) := by
  cases field with
  | none => exact h.any_eq
  | some f => cases f <;> exact h.any_eq

theorem compares_of_perm {op : Operator} (ho : op = isIn ∨ op = notIn) {xs ys : List Value}
    (h : xs.Perm ys) (field : Option Value) :
    op.compares field (.array xs) = op.compares field (.array ys) := by
  obtain rfl | rfl := ho
  · exact memberOf_of_perm h field
  · exact congrArg (! ·) (memberOf_of_perm h field)

theorem soften_array_of_scalar {op : Operator} (ho : op.arity ≠ .scalar ∨ op = isIn ∨ op = notIn)
    {xs : List Value} (ha : (op.soften (.array xs)).arity = .scalar) :
    op.soften (.array xs) = isIn ∨ op.soften (.array xs) = notIn := by
  cases op with
  | isIn | notIn | not => simp [soften]
  | and | or | nor | anyItem | everyItem => simp [soften, arity] at ha
  | _ => simp [arity] at ho

theorem combines_of_perm (op : Operator) {answers others : List Bool} (h : answers.Perm others) :
    op.combines answers = op.combines others := by
  cases op with
  | and => exact h.all_eq
  | or => exact h.any_eq
  | nor => exact congrArg (! ·) h.any_eq
  | _ => rfl

end Operator

def SameAnswers (es fs : List Expression) : Prop := ∀ s, allHold s es = allHold s fs

namespace SameAnswers

theorem refl (es : List Expression) : SameAnswers es es := fun _ => rfl

theorem trans {es fs gs : List Expression} (h : SameAnswers es fs) (hfs : SameAnswers fs gs) :
    SameAnswers es gs := fun s => (h s).trans (hfs s)

theorem append {es fs gs hs : List Expression} (h : SameAnswers es fs) (hg : SameAnswers gs hs) :
    SameAnswers (es ++ gs) (fs ++ hs) := by
  intro s
  rw [allHold_append, allHold_append, h s, hg s]

theorem compare {path : String} {op : Operator} {v w : Value}
    (h : ∀ field, op.compares field v = op.compares field w) :
    SameAnswers [.compare path op v] [.compare path op w] := by
  intro s
  simp only [allHold, Expression.holds, h]

theorem combine_of_perm (path : String) (op : Operator) {branches others : List (List Expression)}
    (h : branches.Perm others) :
    SameAnswers [.combine path op branches] [.combine path op others] := by
  intro s
  simp only [allHold, Expression.holds_combine]
  rw [op.combines_of_perm (h.map _)]

theorem map_allHold {branches others : List (List Expression)}
    (h : List.Forall₂ SameAnswers branches others) (s : Scope) :
    (branches.map fun es => allHold s es) = others.map fun es => allHold s es := by
  induction h with
  | nil => rfl
  | cons hes _ ih => rw [List.map_cons, List.map_cons, hes s, ih]

end SameAnswers

theorem congruence_sameAnswers : Congruence SameAnswers where
  refl := SameAnswers.refl
  append := SameAnswers.append
  quantify path op body other h := by
    intro s
    have hbody : (fun t => allHold t body) = fun t => allHold t other := funext h
    simp only [allHold, Expression.holds_quantify, hbody]
  combine path op branches others h := by
    intro s
    simp only [allHold, Expression.holds_combine, SameAnswers.map_allHold h]

namespace Vocabulary

/-- Keys behind which an array is a set or lists alternatives: attributes, operators on sub-queries
and the operators on sets. -/
def Unordered (w : Vocabulary) (key : String) : Prop :=
  looksLikeOperator key = false ∨
    ∃ op, w.Spells key op ∧ (op.arity ≠ .scalar ∨ op = .isIn ∨ op = .notIn)

/-- At one level, something is listed in another order: the keys, what stands behind a key, or a set
that is itself an alternative. -/
inductive Reorders (w : Vocabulary) : Document → Document → Prop
  | keys {d e : Document} (h : List.Perm d e) : Reorders w d e
  | items (front back : Document) {key : String} (hk : w.Unordered key) {xs ys : List Value}
      (h : xs.Perm ys) :
      Reorders w (front ++ (key, .array xs) :: back) (front ++ (key, .array ys) :: back)
  | alternative (front back : Document) {token : String} {op : Operator} (hs : w.Spells token op)
      (ha : op.arity = .nestedList) (before after : List Value) {xs ys : List Value}
      (h : xs.Perm ys) :
      Reorders w (front ++ (token, .array (before ++ .array xs :: after)) :: back)
        (front ++ (token, .array (before ++ .array ys :: after)) :: back)

theorem Reorders.symm {w : Vocabulary} {d e : Document} (h : w.Reorders d e) : w.Reorders e d := by
  cases h with
  | keys h => exact .keys h.symm
  | items front back hk h => exact .items front back hk h.symm
  | alternative front back hs ha before after h =>
    exact .alternative front back hs ha before after h.symm

end Vocabulary

namespace QueryRules

variable {r : QueryRules} {depth : Nat} {path : String}

theorem lowers_set_of_perm {xs ys : List Value} (h : xs.Perm ys) {es : List Expression}
    (hes : r.Lowers depth path (.array xs) es) :
    ∃ fs, r.Lowers depth path (.array ys) fs ∧ SameAnswers es fs := by
  obtain ⟨hlength, rfl⟩ := lowers_array.mp hes
  rw [h.length_eq] at hlength
  exact ⟨_, lowers_array.mpr ⟨hlength, rfl⟩, .compare (Operator.compares_of_perm (.inl rfl) h)⟩

theorem entriesLower_of_perm {d e : Document} (h : List.Perm d e) {es : List Expression}
    (hes : r.EntriesLower depth path d es) :
    ∃ fs, r.EntriesLower depth path e fs ∧ SameAnswers es fs := by
  induction h generalizing es with
  | nil => exact ⟨es, hes, .refl es⟩
  | cons x _ ih =>
    cases hes with
    | cons hx hrest =>
      obtain ⟨fs, hfs, hsame⟩ := ih hrest
      exact ⟨_, .cons hx hfs, (SameAnswers.refl _).append hsame⟩
  | swap x y l =>
    obtain _ | @⟨_, _, ys, _, hy, _ | @⟨_, _, xs, fs, hx, hl⟩⟩ := hes
    refine ⟨_, .cons hx (.cons hy hl), fun s => ?_⟩
    simp only [allHold_append, Bool.and_left_comm]
  | trans _ _ ih ih' =>
    obtain ⟨fs, hfs, hsame⟩ := ih hes
    obtain ⟨gs, hgs, hsame'⟩ := ih' hfs
    exact ⟨gs, hgs, hsame.trans hsame'⟩

theorem entryLowers_of_perm {key : String} (hk : r.vocabulary.Unordered key) {xs ys : List Value}
    (h : xs.Perm ys) {es : List Expression} (hes : r.EntryLowers depth path (key, .array xs) es) :
    ∃ fs, r.EntryLowers depth path (key, .array ys) fs ∧ SameAnswers es fs := by
  have hop := r.vocabulary.normalize?_array key xs ys
  cases hes with
  | field hfield hne hv =>
    obtain ⟨fs, hfs, hsame⟩ := lowers_set_of_perm h hv
    exact ⟨fs, .field hfield hne hfs, hsame⟩
  | compare hmarked hd ha _ hs =>
    obtain hfield | ⟨written, hspells, hunordered⟩ := hk
    · simp [hfield] at hmarked
    · obtain rfl := Option.some.inj ((hspells.normalize?_eq _).symm.trans hd)
      -- a plain operator that is left in front of an array is one on sets
      have hset := Operator.soften_array_of_scalar hunordered ha
      have hfits : r.FitsSet (written.soften (.array xs)) (.array ys) := by
        intro ho items hitems
        obtain rfl := Value.array.inj hitems
        exact h.length_eq ▸ hs ho xs rfl
      exact ⟨_, .compare hmarked (hop ▸ hd) ha (by simp) hfits,
        .compare (Operator.compares_of_perm hset h)⟩
  | quantify hmarked hd ha hv =>
    obtain ⟨body, hbody, hsame⟩ := lowers_set_of_perm h hv
    exact ⟨_, .quantify hmarked (hop ▸ hd) ha hbody, congruence_sameAnswers.quantify path _ hsame⟩
  | combine hmarked hd ha hitems =>
    obtain ⟨others, hothers, hperm⟩ := List.perm_comp_forall₂ h.symm hitems
    exact ⟨_, .combine hmarked (hop ▸ hd) ha hothers, .combine_of_perm path _ hperm.symm⟩

theorem compilesLike_of_reorders {d e : Document} (h : r.vocabulary.Reorders d e) :
    r.CompilesLike SameAnswers d e := by
  cases h with
  | keys h =>
    exact {
      attributes := fun hk x hx => hk x (h.mem_iff.mpr hx)
      operators := fun hk x hx => hk x (h.mem_iff.mpr hx)
      combinators := fun _ hc x hx => hc x (h.mem_iff.mpr hx)
      entries := entriesLower_of_perm h }
  | items front back hk h =>
    have hkey := compilesLike_singleton rfl rfl (r := r) fun hes => entryLowers_of_perm hk h hes
    exact hkey.between congruence_sameAnswers front back
  | alternative front back hs ha before after h =>
    have hkey := compilesLike_singleton rfl rfl fun hes =>
      entryLowers_of_middle congruence_sameAnswers hs ha before after
        (fun hv => lowers_set_of_perm h hv) hes
    exact hkey.between congruence_sameAnswers front back

theorem compile_of_reorders {query other : Document} {es : List Expression}
    (h : Relation.ReflTransGen (r.vocabulary.ChangesLevel r.vocabulary.Reorders) query other)
    (hes : r.compile query = .ok es) :
    ∃ fs, r.compile other = .ok fs ∧ SameAnswers es fs := by
  induction h with
  | refl => exact ⟨es, hes, .refl es⟩
  | tail _ hstep ih =>
    obtain ⟨fs, hfs, hsame⟩ := ih
    have hlike := hstep.compilesLike congruence_sameAnswers fun _ _ => compilesLike_of_reorders
    obtain ⟨gs, hgs, hsame'⟩ := hlike.compile hfs
    exact ⟨gs, hgs, hsame.trans hsame'⟩

theorem reordered_symm {w : Vocabulary} {query other : Document}
    (h : Relation.ReflTransGen (w.ChangesLevel w.Reorders) query other) :
    Relation.ReflTransGen (w.ChangesLevel w.Reorders) other query := by
  induction h with
  | refl => exact .refl
  | tail _ hstep ih => exact ih.head (hstep.symm fun _ _ => Vocabulary.Reorders.symm)

/-- A query in another order, at any number of its levels, is accepted if the query is, and then the
same records satisfy both. -/
theorem satisfies_reordered (r : QueryRules) {query other : Document}
    (h : Relation.ReflTransGen (r.vocabulary.ChangesLevel r.vocabulary.Reorders) query other) :
    ((∃ es, r.compile query = .ok es) ↔ ∃ fs, r.compile other = .ok fs) ∧
      ∀ es fs, r.compile query = .ok es → r.compile other = .ok fs →
        ∀ d : Document, d.satisfies es = d.satisfies fs := by
  refine ⟨⟨fun ⟨es, hes⟩ => ?_, fun ⟨fs, hfs⟩ => ?_⟩, fun es fs hes hfs d => ?_⟩
  · obtain ⟨fs, hfs, -⟩ := compile_of_reorders h hes
    exact ⟨fs, hfs⟩
  · obtain ⟨es, hes, -⟩ := compile_of_reorders (reordered_symm h) hfs
    exact ⟨es, hes⟩
  · obtain ⟨gs, hgs, hsame⟩ := compile_of_reorders h hes
    obtain rfl := Except.ok.inj (hgs.symm.trans hfs)
    exact hsame (.record d)

/-- The alternatives, the keys inside one of them, a set behind one of these and a set below a
quantifier, all in another order. -/
theorem satisfies_reordered_film :
    let r : QueryRules := ⟨.standard, 4, 2⟩
    let query : Document := [("$or", .array [
      .document [("year", .array [.int32 1979, .int32 1986]), ("title", .string "Aliens")],
      .document [("cast", .document [("$some", .array [.string "Ann", .string "Ash"])])]])]
    let other : Document := [("$or", .array [
      .document [("cast", .document [("$some", .array [.string "Ash", .string "Ann"])])],
      .document [("title", .string "Aliens"), ("year", .array [.int32 1986, .int32 1979])]])]
    let d : Document := [("title", .string "Aliens"), ("year", .int64 1986)]
    let es : List Expression := [.combine "" .or [
      [.compare "year" .isIn (.array [.int32 1979, .int32 1986]),
        .compare "title" .equal (.string "Aliens")],
      [.quantify "cast" .anyItem [.compare "" .isIn (.array [.string "Ann", .string "Ash"])]]]]
    let fs : List Expression := [.combine "" .or [
      [.quantify "cast" .anyItem [.compare "" .isIn (.array [.string "Ash", .string "Ann"])]],
      [.compare "title" .equal (.string "Aliens"),
        .compare "year" .isIn (.array [.int32 1986, .int32 1979])]]]
    Relation.ReflTransGen (r.vocabulary.ChangesLevel r.vocabulary.Reorders) query other ∧
      r.compile query = .ok es ∧ r.compile other = .ok fs ∧
      d.satisfies es = d.satisfies fs ∧ d.satisfies fs = true := by
  intro r query other d es fs
  have hor : r.vocabulary.Spells "$or" .or := Vocabulary.spells_standard rfl
  have hsome : r.vocabulary.Spells "$some" .anyItem := Vocabulary.spells_standard rfl
  have hyears : r.vocabulary.ChangesLevel r.vocabulary.Reorders
      [("year", .array [.int32 1979, .int32 1986]), ("title", .string "Aliens")]
      [("year", .array [.int32 1986, .int32 1979]), ("title", .string "Aliens")] :=
    .here (.items [] _ (.inl (by decide)) (.swap _ _ _))
  have hkeys : r.vocabulary.ChangesLevel r.vocabulary.Reorders
      [("year", .array [.int32 1986, .int32 1979]), ("title", .string "Aliens")]
      [("title", .string "Aliens"), ("year", .array [.int32 1986, .int32 1979])] :=
    .here (.keys (.swap _ _ _))
  have hnames : r.vocabulary.ChangesLevel r.vocabulary.Reorders
      [("cast", .document [("$some", .array [.string "Ann", .string "Ash"])])]
      [("cast", .document [("$some", .array [.string "Ash", .string "Ann"])])] :=
    .entry [] [] "cast" (.here (.items [] [] (.inr ⟨_, hsome, .inl (by decide)⟩) (.swap _ _ _)))
  have h : Relation.ReflTransGen (r.vocabulary.ChangesLevel r.vocabulary.Reorders) query other :=
    .head (.branch [] [] hor rfl [] [_] hyears)
      (.head (.branch [] [] hor rfl [] [_] hkeys)
        (.head (.branch [] [] hor rfl [_] [] hnames)
          (.single (.here (.items [] [] (.inr ⟨_, hor, .inl (by decide)⟩) (.swap _ _ _))))))
  have hes : r.compile query = .ok es := rfl
  have hfs : r.compile other = .ok fs := rfl
  have hd : d.satisfies fs = true := rfl
  exact ⟨h, hes, hfs, (satisfies_reordered r h).2 es fs hes hfs d, hd⟩

end QueryRules

end RecordStore
