import RecordStore.Proofs.Patch.Stripped
import RecordStore.Proofs.Store.Writes

namespace RecordStore

theorem Identifier.matchesRecord_strip {id : Identifier} {d : Document}
    (hv : d.get? id.name = some id.value) (hsettled : id.value.Settled)
    (hsame : id.value.same id.value = true) : id.matchesRecord d.strip = true := by
  have hstrip : d.strip.get? id.name = some id.value := by
    rw [Document.get?_strip hv (Bool.eq_false_iff.mpr hsettled.not_isUndefined),
      id.value.strip_of_settled hsettled]
  rw [matchesRecord, hstrip]
  exact hsame

namespace Store

variable {s : Store Collections} {storable : String} {d : Document} {o : SaveOptions}
  {session after : Session Collections}

theorem InMemory.exists_created_of_save (hs : s.InMemory) (hnew : o.isNew = true)
    (h : s.save storable d o session = .ok true after) :
    ∃ t id, s.Designates storable d t id ∧
      (session.contents.records t.collection).any id.matchesRecord = false ∧
      after.contents = session.contents.set t.collection
        (session.contents.records t.collection ++ [d.strip]) := by
  cases ho : o.resolve with
  | error e =>
    rw [save, bind_of_error (liftExcept_of_error ho)] at h
    cases h
  | ok flags =>
    obtain ⟨t, id, hd⟩ := hs.exists_designates ((hs.save_eq ho session).symm.trans h)
    rw [hs.save_new_eq hd ho hnew] at h
    cases hc : session.contents.create? t.collection id d.strip with
    | none =>
      rw [hc] at h
      exact absurd h written_none_ne
    | some c =>
      rw [hc] at h
      cases h
      obtain ⟨habsent, rfl⟩ := Collections.create?_eq_some hc
      exact ⟨t, id, hd, habsent, rfl⟩

/-- A document that was saved as a new record can be saved over it right away, and this leaves every
collection exactly as it is. What the document is identified by must be found again in the record:
it leaves nothing undefined, and is the same as itself. -/
theorem InMemory.save_again_unchanged (hs : s.InMemory) (hd : d.isNamed = true)
    (hid : ∀ t id, s.Designates storable d t id →
      id.value.Settled ∧ id.value.same id.value = true)
    (hnew : o.isNew = true) (h : s.save storable d o session = .ok true after)
    {again : SaveOptions} {flags : SaveFlags} (hagain : again.isNew = false)
    (hflags : again.resolve = .ok flags) :
    ∃ log, s.save storable d again after = .ok true ⟨after.contents, log⟩ := by
  obtain ⟨t, id, hdesignates, habsent, hafter⟩ := hs.exists_created_of_save hnew h
  obtain ⟨hsettled, hsame⟩ := hid t id hdesignates
  have hfound := Identifier.matchesRecord_strip hdesignates.get?_eq hsettled hsame
  have ha : id.Addresses (after.contents.records t.collection)
      (session.contents.records t.collection) d.strip [] := by
    rw [hafter, Collections.records_set, if_pos rfl]
    exact Identifier.addresses_append habsent hfound
  -- the patch is made of the document without its identifier, and finds nothing to change
  have hpatch : (Patch.ofDocument (d.erase id.name)).apply d.strip = d.strip :=
    Patch.apply_ofDocument_strip hd List.filter_sublist
  obtain ⟨log, hlog⟩ := hs.save_addressed hdesignates ha hflags hagain
  refine ⟨log, hlog.trans ?_⟩
  rw [hpatch, hafter, Collections.set_set]

/-- Undefined values in a document inside a document, alone in one, and in an array, where the
document that is left stays. -/
theorem InMemory.save_again_unchanged_film :
    let s : Store Collections :=
      { new Backend.memory with storables := ⟨[⟨"film", "films", ["id", "slug"]⟩]⟩ }
    let d : Document := [("gone", .undefined),
      ("cast", .document [("lead", .document [("by", .undefined), ("as", .string "Ripley")]),
        ("crew", .document [("by", .undefined)])]),
      ("slug", .string "alien"),
      ("tags", .array [.undefined, .document [("x", .undefined)], .int32 1])]
    let session := Session.start (⟨[("films", [[("slug", .string "heat")]])]⟩ : Collections)
    s.InMemory ∧ d.isNamed = true ∧ ∃ after log,
      s.save "film" d { isNew := true } session = .ok true after ∧
        after.contents.records "films" = [[("slug", .string "heat")],
          [("cast", .document [("lead", .document [("as", .string "Ripley")]),
              ("crew", .document [])]),
            ("slug", .string "alien"), ("tags", .array [.document [], .int32 1])]] ∧
        s.save "film" d {} after = .ok true ⟨after.contents, log⟩ := by
  intro s d session
  have hs : s.InMemory := ⟨rfl, rfl⟩
  have hd : d.isNamed = true := by decide
  have h : s.save "film" d { isNew := true } session = .ok true ⟨_, _⟩ := rfl
  have hid : ∀ t id, s.Designates "film" d t id →
      id.value.Settled ∧ id.value.same id.value = true := by
    intro t id hdesignates
    obtain rfl : (⟨"film", "films", ["id", "slug"]⟩ : Storable) = t :=
      Except.ok.inj hdesignates.storable
    have he : [("slug", Value.string "alien")] = _ := Except.ok.inj hdesignates.identifier
    obtain rfl := Identifier.eq_of_entry he
    exact ⟨Value.IsPlain.settled ⟨nofun, nofun⟩ nofun, rfl⟩
  obtain ⟨log, hlog⟩ : ∃ log, s.save "film" d {} _ = .ok true ⟨_, log⟩ :=
    hs.save_again_unchanged hd hid rfl h rfl rfl
  exact ⟨hs, hd, _, log, h, rfl, hlog⟩

end Store

end RecordStore
