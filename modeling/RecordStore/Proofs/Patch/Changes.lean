import RecordStore.Proofs.Patch.Overlay
import RecordStore.Proofs.Patch.Stripped
import RecordStore.Proofs.Value.Agreement

namespace RecordStore

theorem Value.isHeldBy_iff {v : Value} {held : Option Value} :
    v.isHeldBy held = true ↔ ∃ w, held = some w ∧ w.equal v = true := by
  cases held with
  | none => simp [isHeldBy]
  | some w => simp [isHeldBy]

namespace Document

theorem setChanges_eq (d : Document) (name : String) (v : Value) (rest : List String) :
    d.setChanges name v rest = !v.isHeldBy (d.getAt name rest) := by
  induction rest generalizing d name with
  | nil => rfl
  | cons next rest ih =>
    rw [getAt_cons]
    obtain ⟨sub, h⟩ | ⟨hnil, hplain⟩ := document_or (d.get? name)
    · simp only [setChanges, h, attributesOf, ih]
    · rw [hnil, getAt_nil]
      simp only [setChanges, Value.isHeldBy, Bool.not_false]

theorem setPathChanges_iff {d : Document} {p : Path} {v : Value} :
    d.setPathChanges p v = true ↔ ¬ ∃ w, d.getPath p = some w ∧ w.equal v = true := by
  rw [setPathChanges, setChanges_eq, Bool.not_eq_true', ← Bool.not_eq_true, Value.isHeldBy_iff]
  rfl

end Document

namespace Patch

/-- Each change is judged by the document that the run began with, if none of them alters what a
later one is judged by. -/
theorem snd_foldl_iff {α : Type} {step : Document × Bool → α → Document × Bool}
    (test : Document → α → Bool) (hstep : ∀ s a, (step s a).2 = (s.2 || test s.1 a))
    {changes : List α} (h : changes.Pairwise fun a b => ∀ s, test (step s a).1 b = test s.1 b)
    (s : Document × Bool) :
    (changes.foldl step s).2 = true ↔ s.2 = true ∨ ∃ a ∈ changes, test s.1 a = true := by
  induction changes generalizing s with
  | nil => simp
  | cons a changes ih =>
    obtain ⟨ha, hrest⟩ := List.pairwise_cons.mp h
    have hsame : (∃ b ∈ changes, test (step s a).1 b = true) ↔
        ∃ b ∈ changes, test s.1 b = true :=
      exists_congr fun b => and_congr_right fun hb => by rw [ha b hb s]
    rw [List.foldl_cons, ih hrest, hstep, hsame, Bool.or_eq_true, or_assoc]
    simp only [List.mem_cons, exists_eq_or_imp]

variable {p : Patch} {d : Document}

theorem changes_iff (hp : p.paths.Pairwise Path.Apart) (d : Document) :
    p.changes d = true ↔
      (∃ e ∈ p.set, ¬ ∃ w, d.getPath (Path.ofString e.1) = some w ∧ w.equal e.2 = true) ∨
        ∃ path ∈ p.unset, (d.getPath (Path.ofString path)).isSome = true := by
  obtain ⟨hset, hunset, hcross⟩ := List.pairwise_append.mp hp
  have hassigned : (p.set.foldl applySet (d, false)).2 = true ↔
      ∃ e ∈ p.set, ¬ ∃ w, d.getPath (Path.ofString e.1) = some w ∧ w.equal e.2 = true := by
    rw [snd_foldl_iff (fun d e => d.setPathChanges (Path.ofString e.1) e.2) fun _ _ => rfl]
    · simp only [Bool.false_eq_true, false_or, Document.setPathChanges_iff]
    · refine (List.pairwise_map.mp hset).imp fun h s => ?_
      rw [Bool.eq_iff_iff, Document.setPathChanges_iff, Document.setPathChanges_iff, applySet,
        Document.getPath_setPath_of_apart h]
  rw [changes, run,
    snd_foldl_iff (fun d path => (d.getPath (Path.ofString path)).isSome) fun _ _ => rfl]
  · refine or_congr hassigned (exists_congr fun path => and_congr_right fun hm => ?_)
    rw [getPath_foldl_applySet_of_apart fun e he => hcross e.1 (List.mem_map_of_mem he) path hm]
  · refine hunset.imp fun h s => ?_
    rw [applyUnset, Document.getPath_unsetPath_of_apart h]

theorem apply_of_not_changes (hp : p.paths.Pairwise Path.Apart) (h : p.changes d = false) :
    (∀ e ∈ p.set, ∃ w, d.getPath (Path.ofString e.1) = some w ∧ w.equal e.2 = true) ∧
      p.apply d = (p.set.foldl applySet (d, false)).1 := by
  obtain ⟨-, -, hcross⟩ := List.pairwise_append.mp hp
  obtain ⟨hheld, hgone⟩ := not_or.mp ((changes_iff hp d).not.mp (Bool.not_eq_true _ ▸ h))
  constructor
  · exact fun e he => not_not.mp fun hn => hheld ⟨e, he, hn⟩
  · refine foldl_applyUnset_of_getPath fun path hm => ?_
    rw [getPath_foldl_applySet_of_apart fun e he => hcross e.1 (List.mem_map_of_mem he) path hm]
    exact Option.not_isSome_iff_eq_none.mp fun hs => hgone ⟨path, hm, hs⟩

theorem agrees_foldl_applySet {set : List (String × Value)}
    (hp : (set.map Prod.fst).Pairwise Path.Apart) (hset : ∀ e ∈ set, e.2.NamesOnce)
    (state : Document × Bool) (hd : (Value.document state.1).NamesOnce)
    (hheld : ∀ e ∈ set,
      ∃ w, state.1.getPath (Path.ofString e.1) = some w ∧ w.equal e.2 = true) :
    (Value.document state.1).Agrees (.document (set.foldl applySet state).1) ∧
      (Value.document (set.foldl applySet state).1).NamesOnce := by
  induction set generalizing state with
  | nil => exact ⟨.refl _, hd⟩
  | cons e set ih =>
    obtain ⟨hfirst, hp⟩ := List.pairwise_cons.mp hp
    obtain ⟨he, hset⟩ := List.forall_mem_cons.mp hset
    obtain ⟨⟨w, hw, hequal⟩, hheld⟩ := List.forall_mem_cons.mp hheld
    have hstep : (Value.document state.1).Agrees (.document (applySet state e).1) :=
      .setAt hd he hw hequal
    -- what the others assign is still there
    have hheld' : ∀ f ∈ set, ∃ w, (applySet state e).1.getPath (Path.ofString f.1) = some w ∧
        w.equal f.2 = true := fun f hf => by
      rw [applySet, Document.getPath_setPath_of_apart (hfirst f.1 (List.mem_map_of_mem hf))]
      exact hheld f hf
    obtain ⟨hagrees, honce⟩ := ih hp hset (applySet state e) (hd.setAt he _ _) hheld'
    exact ⟨hstep.trans hagrees, honce⟩

theorem agrees_apply (hp : p.paths.Pairwise Path.Apart) (hset : ∀ e ∈ p.set, e.2.NamesOnce)
    (hd : (Value.document d).NamesOnce) (h : p.changes d = false) :
    (Value.document d).Agrees (.document (p.apply d)) ∧
      (Value.document (p.apply d)).NamesOnce := by
  obtain ⟨hheld, happly⟩ := apply_of_not_changes hp h
  rw [happly]
  exact agrees_foldl_applySet (List.pairwise_append.mp hp).1 hset (d, false) hd hheld

theorem agrees_of_dottedPrefix (hp : p.paths.Pairwise Path.Apart)
    (hset : ∀ e ∈ p.set, e.2.NamesOnce) (hd : (Value.document d).NamesOnce)
    (h : p.changes d = false) {q : String} {e : String × Value} (he : e ∈ p.set)
    (hq : Path.DottedPrefix q e.1) :
    ∃ sub sub' : Document, d.getPath (Path.ofString q) = some (.document sub) ∧
      (p.apply d).getPath (Path.ofString q) = some (.document sub') ∧
      (Value.document sub).Agrees (.document sub') ∧
      (sub.equal sub = true → sub.equal sub' = true) := by
  obtain ⟨rest, hrest⟩ := hq
  obtain ⟨w, hw, -⟩ := (apply_of_not_changes hp h).1 e he
  obtain ⟨hagrees, honce⟩ := agrees_apply hp hset hd h
  rw [hrest, Document.getPath_dotted] at hw
  obtain ⟨sub, hsub⟩ | ⟨hnil, -⟩ := Document.document_or (d.getPath (Path.ofString q))
  · obtain ⟨v, hv, hsubv⟩ := exists_of_rel (hagrees.getPath (Path.ofString q)) hsub
    obtain ⟨sub', rfl⟩ := hsubv.exists_document
    refine ⟨sub, sub', hsub, hv, hsubv, fun hself => ?_⟩
    exact hsubv.equal_of_equal_self (hd.getAt hsub) (honce.getAt hv) hself
  · rw [hnil, Document.getPath, Document.getAt_nil] at hw
    cases hw

theorem same_or_equal_of_rel {a b : Option Value} (h : Option.Rel Value.Equals a b) :
    b = a ∨ ∃ v w, a = some v ∧ b = some w ∧ v.equal w = true := by
  cases h with
  | none => exact .inl rfl
  | some hvw => exact .inr ⟨_, _, rfl, rfl, hvw.equal⟩

/-- Where no change is reported, every path reads the same value as before or an equal one, unless
it leads to a document, with a NaN in it, in which something is assigned. -/
theorem getPath_apply_of_not_changes (hp : p.paths.Pairwise Path.Apart)
    (hset : ∀ e ∈ p.set, e.2.NamesOnce) (hd : (Value.document d).NamesOnce)
    (h : p.changes d = false) (q : String) :
    (p.apply d).getPath (Path.ofString q) = d.getPath (Path.ofString q) ∨
      (∃ v w, d.getPath (Path.ofString q) = some v ∧
        (p.apply d).getPath (Path.ofString q) = some w ∧ v.equal w = true) ∨
      (∃ e ∈ p.set, Path.DottedPrefix q e.1) ∧
        ∃ sub sub' : Document, d.getPath (Path.ofString q) = some (.document sub) ∧
          (p.apply d).getPath (Path.ofString q) = some (.document sub') ∧
          sub.equal sub = false ∧ (Value.document sub).Agrees (.document sub') := by
  obtain ⟨hheld, happly⟩ := apply_of_not_changes hp h
  by_cases hapart : ∀ e ∈ p.set, Path.Apart e.1 q
  · left
    rw [happly]
    exact getPath_foldl_applySet_of_apart hapart (d, false)
  obtain ⟨e, he, hnot⟩ : ∃ e ∈ p.set, ¬ Path.Apart e.1 q := by
    simpa only [not_forall, exists_prop] using hapart
  obtain ⟨w, hw, hequal⟩ := hheld e he
  have hafter := getPath_apply_set hp he d
  obtain rfl | ⟨rest, rfl⟩ | hq := Path.not_apart_iff.mp hnot
  · exact .inr (.inl ⟨w, e.2, hw, hafter, hequal⟩)
  · -- below what is assigned, equal values have equal parts
    have hequals : w.Equals e.2 := ⟨hd.getAt hw, hset e he, hequal⟩
    rw [Document.getPath_dotted, Document.getPath_dotted, hw, hafter]
    exact (same_or_equal_of_rel (hequals.getPath (Path.ofString rest))).imp_right .inl
  · obtain ⟨sub, sub', hsub, hsub', hagrees, hself⟩ := agrees_of_dottedPrefix hp hset hd h he hq
    cases hs : sub.equal sub with
    | true => exact .inr (.inl ⟨_, _, hsub, hsub', hself hs⟩)
    | false => exact .inr (.inr ⟨⟨e, he, hq⟩, sub, sub', hsub, hsub', hs, hagrees⟩)

/-- A patch reports a change exactly if something that it assigns is not there yet, up to equality,
or something that it removes is. Otherwise every path reads the same value as before or an equal
one, but for documents, with a NaN in them, on the way to what is assigned; those agree. Reported or
not, nothing is left to change unless a NaN is assigned. -/
theorem changes_exactly {p : Patch} (hp : p.paths.Pairwise Path.Apart)
    (hset : ∀ e ∈ p.set, e.2.NamesOnce) {d : Document} (hd : (Value.document d).NamesOnce) :
    (p.changes d = true ↔
      (∃ e ∈ p.set, ¬ ∃ w, d.getPath (Path.ofString e.1) = some w ∧ w.equal e.2 = true) ∨
        ∃ path ∈ p.unset, (d.getPath (Path.ofString path)).isSome = true) ∧
      (p.changes d = false → ∀ q,
        (p.apply d).getPath (Path.ofString q) = d.getPath (Path.ofString q) ∨
          (∃ v w, d.getPath (Path.ofString q) = some v ∧
            (p.apply d).getPath (Path.ofString q) = some w ∧ v.equal w = true) ∨
          (∃ e ∈ p.set, Path.DottedPrefix q e.1) ∧
            ∃ sub sub' : Document, d.getPath (Path.ofString q) = some (.document sub) ∧
              (p.apply d).getPath (Path.ofString q) = some (.document sub') ∧
              sub.equal sub = false ∧ (Value.document sub).Agrees (.document sub')) ∧
      ((∀ e ∈ p.set, e.2.FreeOfNaN) → p.changes (p.apply d) = false) := by
  refine ⟨changes_iff hp d, getPath_apply_of_not_changes hp hset hd, fun hfree => ?_⟩
  rw [← Bool.not_eq_true, changes_iff hp, not_or]
  constructor
  · rintro ⟨e, he, hnot⟩
    exact hnot ⟨e.2, getPath_apply_set hp he d, Value.equal_self (hset e he) (hfree e he)⟩
  · rintro ⟨path, hm, hsome⟩
    rw [getPath_apply_unset hp hm] at hsome
    cases hsome

/-- A zero is assigned where the other zero stands, beside a NaN. -/
theorem changes_exactly_film :
    let p : Patch := ⟨[("score.low", .double ⟨0⟩), ("title", .string "Alien")], ["score.high"]⟩
    let d : Document := [("score", .document [("mean", .double .nan),
      ("low", .double ⟨0x8000000000000000⟩)]), ("title", .string "Alien")]
    p.paths.Pairwise Path.Apart ∧ (∀ e ∈ p.set, e.2.NamesOnce) ∧
      (Value.document d).NamesOnce ∧ p.changes d = false ∧
      (∀ q, (p.apply d).getPath (Path.ofString q) = d.getPath (Path.ofString q) ∨
        (∃ v w, d.getPath (Path.ofString q) = some v ∧
          (p.apply d).getPath (Path.ofString q) = some w ∧ v.equal w = true) ∨
        (∃ e ∈ p.set, Path.DottedPrefix q e.1) ∧
          ∃ sub sub' : Document, d.getPath (Path.ofString q) = some (.document sub) ∧
            (p.apply d).getPath (Path.ofString q) = some (.document sub') ∧
            sub.equal sub = false ∧ (Value.document sub).Agrees (.document sub')) ∧
      (∀ e ∈ p.set, e.2.FreeOfNaN) ∧ p.changes (p.apply d) = false := by
  intro p d
  have hp : p.paths.Pairwise Path.Apart := by decide
  have hset : ∀ e ∈ p.set, e.2.NamesOnce := by decide
  have hd : (Value.document d).NamesOnce := by decide
  have hfree : ∀ e ∈ p.set, e.2.FreeOfNaN := by decide
  have hflag : p.changes d = false := by decide
  obtain ⟨-, hreads, hagain⟩ := changes_exactly hp hset hd
  exact ⟨hp, hset, hd, hflag, hreads hflag, hfree, hagain hfree⟩

/-- Beside a NaN, a zero in the place of the other zero is no change, and yet the document around
them reads as another one. -/
theorem unchanged_reads_differently :
    ¬ ∀ (p : Patch) (d : Document), p.paths.Pairwise Path.Apart →
      (∀ e ∈ p.set, e.2.NamesOnce) → (Value.document d).NamesOnce → p.changes d = false → ∀ q,
        (p.apply d).getPath (Path.ofString q) = d.getPath (Path.ofString q) ∨
          ∃ v w, d.getPath (Path.ofString q) = some v ∧
            (p.apply d).getPath (Path.ofString q) = some w ∧ v.equal w = true := by
  intro h
  let p : Patch := ⟨[("score.low", .double ⟨0⟩)], []⟩
  let score (low : Double) : Document := [("mean", .double .nan), ("low", .double low)]
  let d : Document := [("score", .document (score ⟨0x8000000000000000⟩))]
  have hbefore : d.getPath (Path.ofString "score") =
      some (.document (score ⟨0x8000000000000000⟩)) := rfl
  have hafter : (p.apply d).getPath (Path.ofString "score") = some (.document (score ⟨0⟩)) := rfl
  obtain hsame | ⟨v, w, hv, hw, hequal⟩ :=
    h p d (by decide) (by decide) (by decide) (by decide) "score"
  · rw [hbefore, hafter] at hsame
    simp [score] at hsame
  · obtain rfl := Option.some.inj (hbefore.symm.trans hv)
    obtain rfl := Option.some.inj (hafter.symm.trans hw)
    exact absurd hequal (by decide)

end Patch

end RecordStore
