import RecordStore.Proofs.Query.Parsed
import RecordStore.Proofs.Selection.Pushdown
import RecordStore.Proofs.Store.Addressing

namespace RecordStore

/-- What a selection leaves of an identifying attribute: all of it, unless the selection goes on
inside the attribute. -/
def Selector.kept (s : Selector) (v : Value) : Value :=
  match s with
  | fields entries => (fields entries).pickValue v
  | _ => v

theorem Selector.kept_of_isPlain {v : Value} (hv : v.IsPlain) (s : Selector) : s.kept v = v := by
  cases s with
  | all | nothing => rfl
  | fields entries => exact pickValue_of_isPlain hv _

theorem Projection.get?_apply_withPaths (p : Projection) {names : List String} {name : String}
    (hm : name ∈ names) (hn : Path.IsName name) (d : Document) :
    ((p.withPaths names).apply d).get? name = d.get? name := by
  cases p with
  | unrestricted => rfl
  | paths ps =>
    have hrestricts := restrictsTo_apply (names.foldl addPath ps) d
    have hrow : [] ∈ tails name (Path.rows (names.foldl addPath ps)) := by
      refine mem_tails.mpr (Path.mem_rows.mpr ⟨name, mem_foldl_addPath.mpr (.inr hm), ?_⟩)
      rw [Path.ofString_of_isName hn, Path.names]
    cases hd : d.get? name with
    | none => exact hrestricts.absent name hd
    | some v => exact (hrestricts.present name v hd).eq_some hrow

namespace Storable

/-- Every identifying attribute of the record is in the answer, as far as the selection leaves
it. -/
def KeepsIdentifiers (t : Storable) (selector : Selector) (record answer : Document) : Prop :=
  ∀ name ∈ t.identifiers, answer.get? name = (record.get? name).map (selector.get name).kept

theorem keepsIdentifiers_shown {t : Storable} (hn : ∀ name ∈ t.identifiers, Path.IsName name)
    (selector : Selector) (d : Document) : t.KeepsIdentifiers selector d (t.shown selector d) := by
  intro name hm
  have hd : ((Store.projectionFor t selector).apply d).get? name = d.get? name :=
    selector.toProjection.get?_apply_withPaths hm (hn name hm) d
  rw [shown, Selector.get?_pick, if_pos hm, hd]
  cases d.get? name with
  | none => exact ite_self none
  | some v =>
    cases selector.get name with
    | nothing | fields => rfl
    | all => exact congrArg some (Selector.pickValue_all v)

end Storable

namespace Store

variable {s : Store Collections} {storable : String} {t : Storable}

/-- Whatever is selected, the record that is loaded has its identifying attributes in the answer,
and so has each record that a search finds, the answers being in the order of the records. -/
theorem InMemory.answers_keep_identifiers (hs : s.InMemory)
    (ht : s.storables.get storable = .ok t) (hn : ∀ name ∈ t.identifiers, Path.IsName name)
    (session : Session Collections) :
    (∀ d o answer after, s.load storable d o session = .ok (some answer) after →
      ∃ id record, s.Designates storable d t id ∧
        session.contents.read? t.collection id = some record ∧
        t.KeepsIdentifiers o.selector record answer) ∧
    ∀ query o answers after, s.find storable query o session = .ok answers after →
      ∃ es params, s.rules.compile query = .ok es ∧ s.findParams o = .ok params ∧
        let found := params.page (SortKey.sort params.sort (session.contents.hits t.collection es))
        answers.length = found.length ∧
          ∀ (i : Nat) record answer, found[i]? = some record → answers[i]? = some answer →
            t.KeepsIdentifiers o.selector record answer := by
  refine ⟨fun d o answer after h => ?_, fun query o answers after h => ?_⟩
  · obtain ⟨u, id, hd⟩ := hs.exists_designates h
    obtain rfl : t = u := Except.ok.inj (ht.symm.trans hd.storable)
    rw [hs.load_eq ht hd.identifier] at h
    cases hread : session.contents.read? t.collection id with
    | none =>
      have hread : session.contents.read? t.collection ⟨id.name, id.value⟩ = none := hread
      rw [hread] at h
      cases hthrow : o.throwIfMissing <;> simp [hthrow] at h
    | some record =>
      have hread : session.contents.read? t.collection ⟨id.name, id.value⟩ = some record := hread
      rw [hread] at h
      cases h
      exact ⟨id, record, hd, hread, Storable.keepsIdentifiers_shown hn o.selector record⟩
  · have hanswers := (hs.reads_find storable query o).eq_ok h
    obtain ⟨u, hu, hanswers⟩ := bind_eq_ok.mp hanswers
    obtain rfl : t = u := Except.ok.inj (ht.symm.trans hu)
    obtain ⟨es, hes, hanswers⟩ := bind_eq_ok.mp hanswers
    obtain ⟨params, hparams, hanswers⟩ := bind_eq_ok.mp hanswers
    obtain rfl := Except.ok.inj hanswers
    refine ⟨es, params, hes, hparams, List.length_map .., fun i record answer hrecord hanswer => ?_⟩
    rw [List.getElem?_map, hrecord] at hanswer
    obtain rfl := Option.some.inj hanswer
    exact Storable.keepsIdentifiers_shown hn o.selector record

/-- A selection that names the identifier three times, inside it first, and one that does not name
it at all. -/
theorem InMemory.answers_keep_identifiers_film :
    let s : Store Collections :=
      { new Backend.memory with storables := ⟨[⟨"film", "films", ["id", "slug"]⟩]⟩ }
    let film : Document := [("slug", .string "heat"),
      ("id", .document [("part", .int32 1), ("of", .int32 2)]), ("year", .int32 1995)]
    let session := Session.start (⟨[("films", [film])]⟩ : Collections)
    let inside : Selector :=
      .fields [("id", .fields [("of", .all)]), ("id.part", .all), ("id", .all), ("", .nothing)]
    s.InMemory ∧ (∀ name ∈ ["id", "slug"], Path.IsName name) ∧
      (∃ answer, s.load "film" [("slug", .string "heat")] { selector := inside } session =
          .ok (some answer) session ∧
        answer.get? "id" = some (.document [("of", .int32 2)]) ∧
        answer.get? "slug" = some (.string "heat")) ∧
      ∃ answer after, s.find "film" [] { selector := .fields [("year", .all)] } session =
          .ok [answer] after ∧
        answer.get? "id" = film.get? "id" := by
  intro s film session inside
  have hs : s.InMemory := ⟨rfl, rfl⟩
  have hn : ∀ name ∈ ["id", "slug"], Path.IsName name := by decide
  obtain ⟨hload, hfind⟩ := hs.answers_keep_identifiers
    (rfl : s.storables.get "film" = .ok ⟨"film", "films", ["id", "slug"]⟩) hn session
  refine ⟨hs, hn, ⟨_, rfl, ?_⟩, _, _, rfl, ?_⟩
  · obtain ⟨id, record, hd, hread, hkept⟩ :=
      hload [("slug", .string "heat")] { selector := inside } _ _ rfl
    obtain rfl := Identifier.eq_of_entry (Except.ok.inj hd.identifier)
    obtain rfl : film = record := Option.some.inj hread
    exact ⟨hkept "id" (by decide), hkept "slug" (by decide)⟩
  · obtain ⟨es, params, hes, hparams, -, hkept⟩ :=
      hfind [] { selector := .fields [("year", .all)] } _ _ rfl
    obtain rfl : [] = es := Except.ok.inj hes
    obtain rfl := Except.ok.inj hparams
    exact hkept 0 film _ rfl rfl "id" (by decide)

end Store

end RecordStore
