import Mathlib.Data.List.Forall2
import RecordStore.Proofs.Query.Negation

namespace RecordStore

theorem Vocabulary.normalize?_document (w : Vocabulary) (token : String) (d e : Document) :
    w.normalize? token (.document d) = w.normalize? token (.document e) := by
  apply congrArg (Option.map · (w.resolve? token))
  funext op
  cases op <;> rfl

theorem Vocabulary.normalize?_array (w : Vocabulary) (token : String) (xs ys : List Value) :
    w.normalize? token (.array xs) = w.normalize? token (.array ys) := by
  apply congrArg (Option.map · (w.resolve? token))
  funext op
  cases op <;> rfl

theorem forall₂_of_middle {α β : Type} {rel : α → β → Prop} {like : β → β → Prop} {x y : α}
    (hlike : ∀ b, like b b) (h : ∀ b, rel x b → ∃ c, rel y c ∧ like b c) {before after : List α}
    {bs : List β} (hx : List.Forall₂ rel (before ++ x :: after) bs) :
    ∃ cs, List.Forall₂ rel (before ++ y :: after) cs ∧ List.Forall₂ like bs cs := by
  induction before generalizing bs with
  | nil =>
    cases hx with
    | cons hb hafter =>
      obtain ⟨c, hc, hbc⟩ := h _ hb
      exact ⟨_, .cons hc hafter, .cons hbc (List.forall₂_same.mpr fun b _ => hlike b)⟩
  | cons a before ih =>
    cases hx with
    | cons ha hbefore =>
      obtain ⟨cs, hcs, hbcs⟩ := ih hbefore
      exact ⟨_, .cons ha hcs, .cons (hlike _) hbcs⟩

theorem Document.onlyAttributes_append {d e : Document} :
    Document.OnlyAttributes (d ++ e) ↔ d.OnlyAttributes ∧ e.OnlyAttributes :=
  List.forall_mem_append

theorem Document.onlyOperators_append {d e : Document} :
    Document.OnlyOperators (d ++ e) ↔ d.OnlyOperators ∧ e.OnlyOperators :=
  List.forall_mem_append

namespace QueryRules

def Lowers (r : QueryRules) (depth : Nat) (path : String) (v : Value) (es : List Expression) :
    Prop :=
  ∃ node, r.parseValue depth v = .ok node ∧ node.lower path = es

inductive EntryLowers (r : QueryRules) (depth : Nat) (path : String) :
    String × Value → List Expression → Prop
  | field {name : String} {v : Value} {es : List Expression}
      (hk : looksLikeOperator name = false) (hne : name ≠ "")
      (h : r.Lowers (depth + 1) (Path.join path name) v es) : EntryLowers r depth path (name, v) es
  | compare {token : String} {v : Value} {op : Operator} (hk : looksLikeOperator token = true)
      (hop : r.vocabulary.normalize? token v = some op) (ha : op.arity = .scalar)
      (hv : ∀ d, v ≠ .document d) (hs : r.FitsSet op v) :
      EntryLowers r depth path (token, v) [.compare path op v]
  | quantify {token : String} {v : Value} {op : Operator} {body : List Expression}
      (hk : looksLikeOperator token = true) (hop : r.vocabulary.normalize? token v = some op)
      (ha : op.arity = .nested) (h : r.Lowers (depth + 1) "" v body) :
      EntryLowers r depth path (token, v) [.quantify path op body]
  | combine {token : String} {items : List Value} {op : Operator}
      {branches : List (List Expression)} (hk : looksLikeOperator token = true)
      (hop : r.vocabulary.normalize? token (.array items) = some op) (ha : op.arity = .nestedList)
      (h : List.Forall₂ (r.Lowers (depth + 1) "") items branches) :
      EntryLowers r depth path (token, .array items) [.combine path op branches]

inductive EntriesLower (r : QueryRules) (depth : Nat) (path : String) :
    List (String × Value) → List Expression → Prop
  | nil : EntriesLower r depth path [] []
  | cons {e : String × Value} {entries : List (String × Value)} {es fs : List Expression}
      (he : r.EntryLowers depth path e es) (h : EntriesLower r depth path entries fs) :
      EntriesLower r depth path (e :: entries) (es ++ fs)

variable {r : QueryRules} {depth : Nat} {path : String}

theorem entriesLower_singleton {e : String × Value} {es : List Expression} :
    r.EntriesLower depth path [e] es ↔ r.EntryLowers depth path e es := by
  constructor
  · rintro (_ | ⟨he, ⟨⟩⟩)
    rwa [List.append_nil]
  · intro h
    have hes := EntriesLower.cons h .nil
    rwa [List.append_nil] at hes

theorem entriesLower_append {xs ys : List (String × Value)} {es : List Expression} :
    r.EntriesLower depth path (xs ++ ys) es ↔
      ∃ fs, r.EntriesLower depth path xs fs ∧
        ∃ gs, r.EntriesLower depth path ys gs ∧ fs ++ gs = es := by
  induction xs generalizing es with
  | nil =>
    constructor
    · exact fun h => ⟨[], .nil, es, h, rfl⟩
    · rintro ⟨_, ⟨⟩, gs, h, rfl⟩
      exact h
  | cons e xs ih =>
    constructor
    · rintro (_ | ⟨he, h⟩)
      obtain ⟨fs, hfs, gs, hgs, rfl⟩ := ih.mp h
      exact ⟨_, .cons he hfs, gs, hgs, List.append_assoc _ _ _⟩
    · rintro ⟨_, _ | ⟨he, hfs⟩, gs, hgs, rfl⟩
      rw [List.append_assoc]
      exact .cons he (ih.mpr ⟨_, hfs, gs, hgs, rfl⟩)

theorem entryLowers_attribute {name : String} {v : Value} {es : List Expression}
    (hk : looksLikeOperator name = false) :
    r.EntryLowers depth path (name, v) es ↔
      name ≠ "" ∧ r.Lowers (depth + 1) (Path.join path name) v es := by
  constructor
  · intro h
    cases h with
    | field _ hne h => exact ⟨hne, h⟩
    | compare hop | quantify hop | combine hop => simp [hk] at hop
  · exact fun ⟨hne, h⟩ => .field hk hne h

theorem exists_parseItems_lower {items : List Value} {branches : List (List Expression)} :
    (∃ nodes, r.parseItems depth items = .ok nodes ∧ lowerBranches nodes = branches) ↔
      List.Forall₂ (r.Lowers depth "") items branches := by
  induction items generalizing branches with
  | nil => simp [parseItems, lowerBranches, eq_comm]
  | cons v items ih =>
    simp only [parseItems_cons_eq_ok, List.forall₂_cons_left_iff, ← ih]
    constructor
    · rintro ⟨_, ⟨node, hnode, rest, hrest, rfl⟩, rfl⟩
      exact ⟨_, _, ⟨node, hnode, rfl⟩, ⟨rest, hrest, rfl⟩, rfl⟩
    · rintro ⟨_, _, ⟨node, hnode, rfl⟩, ⟨rest, hrest, rfl⟩, rfl⟩
      exact ⟨_, ⟨node, hnode, rest, hrest, rfl⟩, rfl⟩

theorem exists_parsesClause_lower {token : String} (hk : looksLikeOperator token = true)
    {v : Value} {es : List Expression} :
    (∃ op, r.vocabulary.normalize? token v = some op ∧
        ∃ c, r.ParsesClause depth op v c ∧ [c.lower path] = es) ↔
      r.EntryLowers depth path (token, v) es := by
  constructor
  · rintro ⟨op, hop, _, hc, rfl⟩
    cases hc with
    | compare ha hv hs => exact .compare hk hop ha hv hs
    | quantify ha h => exact .quantify hk hop ha ⟨_, h, rfl⟩
    | combine ha h => exact .combine hk hop ha (exists_parseItems_lower.mp ⟨_, h, rfl⟩)
  · intro h
    cases h with
    | field hfield => simp [hk] at hfield
    | compare _ hop ha hv hs => exact ⟨_, hop, _, .compare ha hv hs, rfl⟩
    | quantify _ hop ha h =>
      obtain ⟨node, hnode, rfl⟩ := h
      exact ⟨_, hop, _, .quantify ha hnode, rfl⟩
    | combine _ hop ha h =>
      obtain ⟨nodes, hnodes, rfl⟩ := exists_parseItems_lower.mpr h
      exact ⟨_, hop, _, .combine ha hnodes, rfl⟩

theorem exists_parseFields_lower {level : Document} {entries : List (String × Value)}
    (hk : Document.OnlyAttributes entries) {es : List Expression} :
    (∃ fs, r.parseFields depth level entries = .ok fs ∧ lowerFields path fs = es) ↔
      r.EntriesLower depth path entries es := by
  induction entries generalizing es with
  | nil =>
    constructor
    · rintro ⟨fs, hfs, rfl⟩
      obtain rfl : [] = fs := by simpa [parseFields] using hfs
      exact .nil
    · rintro ⟨⟩
      exact ⟨[], rfl, rfl⟩
  | cons e entries ih =>
    obtain ⟨name, v⟩ := e
    obtain ⟨hname, hentries⟩ := List.forall_mem_cons.mp hk
    constructor
    · rintro ⟨_, hfs, rfl⟩
      obtain ⟨hne, node, hnode, rest, hrest, rfl⟩ := parseFields_cons_eq_ok.mp hfs
      exact .cons (.field hname hne ⟨node, hnode, rfl⟩) ((ih hentries).mp ⟨rest, hrest, rfl⟩)
    · rintro (_ | ⟨he, h⟩)
      obtain ⟨hne, node, hnode, rfl⟩ := (entryLowers_attribute hname).mp he
      obtain ⟨rest, hrest, rfl⟩ := (ih hentries).mpr h
      exact ⟨_, parseFields_cons_eq_ok.mpr ⟨hne, node, hnode, rest, hrest, rfl⟩, rfl⟩

theorem exists_parseClauses_lower {level : Document} {entries : List (String × Value)}
    (hk : Document.OnlyOperators entries) {es : List Expression} :
    (∃ cs, r.parseClauses depth level entries = .ok cs ∧ lowerClauses path cs = es) ↔
      r.EntriesLower depth path entries es := by
  induction entries generalizing es with
  | nil =>
    constructor
    · rintro ⟨cs, hcs, rfl⟩
      obtain rfl : [] = cs := by simpa [parseClauses] using hcs
      exact .nil
    · rintro ⟨⟩
      exact ⟨[], rfl, rfl⟩
  | cons e entries ih =>
    obtain ⟨token, v⟩ := e
    obtain ⟨htoken, hentries⟩ := List.forall_mem_cons.mp hk
    constructor
    · rintro ⟨_, hcs, rfl⟩
      obtain ⟨op, hop, c, hc, rest, hrest, rfl⟩ := parseClauses_cons_eq_ok.mp hcs
      exact .cons ((exists_parsesClause_lower htoken).mp ⟨op, hop, c, hc, rfl⟩)
        ((ih hentries).mp ⟨rest, hrest, rfl⟩)
    · rintro (_ | ⟨he, h⟩)
      obtain ⟨op, hop, c, hc, rfl⟩ := (exists_parsesClause_lower htoken).mpr he
      obtain ⟨rest, hrest, rfl⟩ := (ih hentries).mpr h
      exact ⟨_, parseClauses_cons_eq_ok.mpr ⟨op, hop, c, hc, rest, hrest, rfl⟩, rfl⟩

theorem lowers_document {d : Document} {es : List Expression} :
    r.Lowers depth path (.document d) es ↔
      depth ≤ r.maxDepth ∧ (d.OnlyAttributes ∨ d.OnlyOperators) ∧
        r.EntriesLower depth path d es := by
  constructor
  · rintro ⟨_, hnode, rfl⟩
    obtain ⟨hd, ⟨hk, fs, hfs, rfl⟩ | ⟨-, hk, cs, hcs, rfl⟩⟩ := parseValue_document_eq_ok.mp hnode
    · exact ⟨hd, .inl hk, (exists_parseFields_lower hk).mp ⟨fs, hfs, rfl⟩⟩
    · exact ⟨hd, .inr hk, (exists_parseClauses_lower hk).mp ⟨cs, hcs, rfl⟩⟩
  · rintro ⟨hd, hk, h⟩
    by_cases ha : d.OnlyAttributes
    · obtain ⟨fs, hfs, rfl⟩ := (exists_parseFields_lower ha).mpr h
      exact ⟨_, parseValue_document_eq_ok.mpr ⟨hd, .inl ⟨ha, fs, hfs, rfl⟩⟩, rfl⟩
    · have hne : d ≠ [] := fun hnil => ha (hnil ▸ List.forall_mem_nil _)
      obtain ⟨cs, hcs, rfl⟩ := (exists_parseClauses_lower (hk.resolve_left ha)).mpr h
      exact ⟨_, parseValue_document_eq_ok.mpr
        ⟨hd, .inr ⟨hne, hk.resolve_left ha, cs, hcs, rfl⟩⟩, rfl⟩

theorem lowers_array {items : List Value} {es : List Expression} :
    r.Lowers depth path (.array items) es ↔
      items.length ≤ r.maxInSet ∧ [.compare path .isIn (.array items)] = es := by
  constructor
  · rintro ⟨_, hnode, rfl⟩
    obtain ⟨hlength, rfl⟩ := parseValue_array_eq_ok.mp hnode
    exact ⟨hlength, rfl⟩
  · rintro ⟨hlength, rfl⟩
    exact ⟨_, parseValue_array_eq_ok.mpr ⟨hlength, rfl⟩, rfl⟩

theorem lowers_plain {v : Value} (hv : v.IsPlain) {es : List Expression} :
    r.Lowers depth path v es ↔ [.compare path .equal v] = es := by
  have hop : Operator.implicit v = .equal := by
    cases v with
    | array items => exact absurd rfl (hv.2 items)
    | _ => rfl
  constructor
  · rintro ⟨_, hnode, rfl⟩
    obtain rfl := (parseValue_eq_ok_of_isPlain hv).mp hnode
    rw [Node.lower, hop]
  · rintro rfl
    exact ⟨_, (parseValue_eq_ok_of_isPlain hv).mpr rfl, by rw [Node.lower, hop]⟩

theorem compile_eq_ok_iff {query : Document} {es : List Expression} :
    r.compile query = .ok es ↔
      (query.OnlyAttributes ∨ query.OnlyOperators ∧ r.OnlyCombinators query) ∧
        r.EntriesLower 1 "" query es := by
  rw [compile_eq_ok]
  constructor
  · rintro ⟨_, hnode, rfl⟩
    obtain ⟨hk, fs, hfs, rfl⟩ | ⟨-, hk, hc, cs, hcs, rfl⟩ := parse_eq_ok.mp hnode
    · exact ⟨.inl hk, (exists_parseFields_lower hk).mp ⟨fs, hfs, rfl⟩⟩
    · exact ⟨.inr ⟨hk, hc⟩, (exists_parseClauses_lower hk).mp ⟨cs, hcs, rfl⟩⟩
  · rintro ⟨hk, h⟩
    by_cases ha : query.OnlyAttributes
    · obtain ⟨fs, hfs, rfl⟩ := (exists_parseFields_lower ha).mpr h
      exact ⟨_, parse_eq_ok.mpr (.inl ⟨ha, fs, hfs, rfl⟩), rfl⟩
    · have hne : query ≠ [] := fun hnil => ha (hnil ▸ List.forall_mem_nil _)
      obtain ⟨ho, hc⟩ := hk.resolve_left ha
      obtain ⟨cs, hcs, rfl⟩ := (exists_parseClauses_lower ho).mpr h
      exact ⟨_, parse_eq_ok.mpr (.inr ⟨hne, ho, hc, cs, hcs, rfl⟩), rfl⟩

end QueryRules

/-- What holds of lists of conditions also holds of the lists that contain them. -/
structure Congruence (like : List Expression → List Expression → Prop) : Prop where
  refl : ∀ es, like es es
  append : ∀ {es fs gs hs}, like es fs → like gs hs → like (es ++ gs) (fs ++ hs)
  quantify : ∀ path op {body other}, like body other →
    like [.quantify path op body] [.quantify path op other]
  combine : ∀ path op {branches others}, List.Forall₂ like branches others →
    like [.combine path op branches] [.combine path op others]

theorem congruence_eq : Congruence (· = ·) where
  refl _ := rfl
  append := by
    rintro _ _ _ _ rfl rfl
    rfl
  quantify := by
    rintro _ _ _ _ rfl
    rfl
  combine _ _ _ _ h := by
    rw [List.forall₂_eq_eq_eq] at h
    rw [h]

namespace Vocabulary

/-- One level somewhere in a query is changed by a rule: the query itself, the level behind a key,
or an alternative behind an operator on several sub-queries. -/
inductive ChangesLevel (w : Vocabulary) (rule : Document → Document → Prop) :
    Document → Document → Prop
  | here {d e : Document} (h : rule d e) : ChangesLevel w rule d e
  | entry (front back : Document) (key : String) {d e : Document} (h : ChangesLevel w rule d e) :
      ChangesLevel w rule (front ++ (key, .document d) :: back)
        (front ++ (key, .document e) :: back)
  | branch (front back : Document) {token : String} {op : Operator} (hs : w.Spells token op)
      (ha : op.arity = .nestedList) (before after : List Value) {d e : Document}
      (h : ChangesLevel w rule d e) :
      ChangesLevel w rule (front ++ (token, .array (before ++ .document d :: after)) :: back)
        (front ++ (token, .array (before ++ .document e :: after)) :: back)

theorem ChangesLevel.symm {w : Vocabulary} {rule : Document → Document → Prop}
    (hrule : ∀ d e, rule d e → rule e d) {d e : Document} (h : w.ChangesLevel rule d e) :
    w.ChangesLevel rule e d := by
  induction h with
  | here h => exact .here (hrule _ _ h)
  | entry front back key _ ih => exact .entry front back key ih
  | branch front back hs ha before after _ ih => exact .branch front back hs ha before after ih

end Vocabulary

namespace QueryRules

variable {r : QueryRules} {depth : Nat} {path : String}

/-- Wherever the first level stands, the second may stand in its place, and what it comes to there
is like what the first comes to. -/
structure CompilesLike (r : QueryRules) (like : List Expression → List Expression → Prop)
    (d e : Document) : Prop where
  attributes : d.OnlyAttributes → e.OnlyAttributes
  operators : d.OnlyOperators → e.OnlyOperators
  combinators : d.OnlyOperators → r.OnlyCombinators d → r.OnlyCombinators e
  entries : ∀ {depth path es}, r.EntriesLower depth path d es →
    ∃ fs, r.EntriesLower depth path e fs ∧ like es fs

variable {like : List Expression → List Expression → Prop}

theorem compilesLike_singleton {key other : String} {v w : Value}
    (hk : looksLikeOperator other = looksLikeOperator key)
    (hr : r.vocabulary.resolve? other = r.vocabulary.resolve? key)
    (h : ∀ {depth path es}, r.EntryLowers depth path (key, v) es →
      ∃ fs, r.EntryLowers depth path (other, w) fs ∧ like es fs) :
    r.CompilesLike like [(key, v)] [(other, w)] where
  attributes hd := by
    simp only [Document.OnlyAttributes, List.forall_mem_singleton] at hd ⊢
    exact hk.trans hd
  operators hd := by
    simp only [Document.OnlyOperators, List.forall_mem_singleton] at hd ⊢
    exact hk.trans hd
  combinators _ hd := by
    simp only [OnlyCombinators, List.forall_mem_singleton, hr] at hd ⊢
    exact hd
  entries hes := by
    simp only [entriesLower_singleton] at hes ⊢
    exact h hes

theorem entryLowers_of_middle (hlike : Congruence like) {token : String} {op : Operator}
    (hs : r.vocabulary.Spells token op) (ha : op.arity = .nestedList) (before after : List Value)
    {v w : Value} (h : ∀ {es}, r.Lowers (depth + 1) "" v es →
      ∃ fs, r.Lowers (depth + 1) "" w fs ∧ like es fs) {es : List Expression}
    (hes : r.EntryLowers depth path (token, .array (before ++ v :: after)) es) :
    ∃ fs, r.EntryLowers depth path (token, .array (before ++ w :: after)) fs ∧ like es fs := by
  have hop (v : Value) : r.vocabulary.normalize? token v = some op := by
    rw [hs.normalize?_eq, Operator.soften_of_nestedList ha]
  cases hes with
  | field hk => simp [hs.marked] at hk
  | compare _ hd hscalar | quantify _ hd hscalar =>
    obtain rfl := Option.some.inj ((hop _).symm.trans hd)
    simp [ha] at hscalar
  | combine hk hd hlist hitems =>
    obtain rfl := Option.some.inj ((hop _).symm.trans hd)
    obtain ⟨others, hothers, hbranches⟩ := forall₂_of_middle hlike.refl (fun _ => h) hitems
    exact ⟨_, .combine hk (hop _) hlist hothers, hlike.combine path _ hbranches⟩

namespace CompilesLike

variable {d e : Document}

theorem lowers (h : r.CompilesLike like d e) {es : List Expression}
    (hd : r.Lowers depth path (.document d) es) :
    ∃ fs, r.Lowers depth path (.document e) fs ∧ like es fs := by
  obtain ⟨hdepth, hk, hes⟩ := lowers_document.mp hd
  obtain ⟨fs, hfs, hlike⟩ := h.entries hes
  exact ⟨fs, lowers_document.mpr ⟨hdepth, hk.imp h.attributes h.operators, hfs⟩, hlike⟩

theorem compile (h : r.CompilesLike like d e) {es : List Expression}
    (hd : r.compile d = .ok es) : ∃ fs, r.compile e = .ok fs ∧ like es fs := by
  obtain ⟨hk, hes⟩ := compile_eq_ok_iff.mp hd
  obtain ⟨fs, hfs, hlike⟩ := h.entries hes
  exact ⟨fs, compile_eq_ok_iff.mpr ⟨hk.imp h.attributes
    fun ⟨ho, hc⟩ => ⟨h.operators ho, h.combinators ho hc⟩, hfs⟩, hlike⟩

variable (hlike : Congruence like)

include hlike

theorem between (h : r.CompilesLike like d e) (front back : Document) :
    r.CompilesLike like (front ++ (d ++ back)) (front ++ (e ++ back)) where
  attributes hk := by
    simp only [Document.onlyAttributes_append] at hk ⊢
    exact ⟨hk.1, h.attributes hk.2.1, hk.2.2⟩
  operators hk := by
    simp only [Document.onlyOperators_append] at hk ⊢
    exact ⟨hk.1, h.operators hk.2.1, hk.2.2⟩
  combinators hk hc := by
    simp only [Document.onlyOperators_append] at hk
    simp only [OnlyCombinators, List.forall_mem_append] at hc ⊢
    exact ⟨hc.1, h.combinators hk.2.1 hc.2.1, hc.2.2⟩
  entries hes := by
    obtain ⟨fs, hfs, _, hrest, rfl⟩ := entriesLower_append.mp hes
    obtain ⟨gs, hgs, hs, hhs, rfl⟩ := entriesLower_append.mp hrest
    obtain ⟨ks, hks, hgks⟩ := h.entries hgs
    have hmiddle := entriesLower_append.mpr ⟨ks, hks, hs, hhs, rfl⟩
    exact ⟨_, entriesLower_append.mpr ⟨fs, hfs, _, hmiddle, rfl⟩,
      hlike.append (hlike.refl fs) (hlike.append hgks (hlike.refl hs))⟩

theorem entry (h : r.CompilesLike like d e) (key : String) {es : List Expression}
    (hes : r.EntryLowers depth path (key, .document d) es) :
    ∃ fs, r.EntryLowers depth path (key, .document e) fs ∧ like es fs := by
  have hop := r.vocabulary.normalize?_document key d e
  cases hes with
  | field hk hne hv =>
    obtain ⟨fs, hfs, hefs⟩ := h.lowers hv
    exact ⟨fs, .field hk hne hfs, hefs⟩
  | compare _ _ _ hv => exact absurd rfl (hv d)
  | quantify hk hd ha hv =>
    obtain ⟨body, hbody, hefs⟩ := h.lowers hv
    exact ⟨_, .quantify hk (hop ▸ hd) ha hbody, hlike.quantify path _ hefs⟩

end CompilesLike

end QueryRules

/-- What a rule keeps of the level that it changes is kept of the whole query. -/
theorem Vocabulary.ChangesLevel.compilesLike {r : QueryRules}
    {like : List Expression → List Expression → Prop} (hlike : Congruence like)
    {rule : Document → Document → Prop} (hrule : ∀ d e, rule d e → r.CompilesLike like d e)
    {d e : Document} (h : r.vocabulary.ChangesLevel rule d e) : r.CompilesLike like d e := by
  induction h with
  | here h => exact hrule _ _ h
  | entry front back key _ ih =>
    have hkey := QueryRules.compilesLike_singleton rfl rfl (ih.entry hlike key)
    exact hkey.between hlike front back
  | branch front back hs ha before after _ ih =>
    have hkey := QueryRules.compilesLike_singleton rfl rfl
      (QueryRules.entryLowers_of_middle hlike hs ha before after ih.lowers)
    exact hkey.between hlike front back

end RecordStore
