import RecordStore.Proofs.Store.Resaving
import RecordStore.Proofs.Store.Retention

namespace RecordStore

namespace Document

theorem keys_strip_sublist (d : Document) : d.strip.keys.Sublist d.keys := by
  rw [strip_eq_map_filter, keys, keys, List.map_map]
  exact List.filter_sublist.map _

theorem strip_map (f : String → String) (d : Document) :
    strip (d.map fun e => (f e.1, e.2)) = d.strip.map fun e => (f e.1, e.2) := by
  simp only [strip_eq_map_filter, List.filter_map, List.map_map, Function.comp_def]

end Document

namespace Codec

/-- Keeps each attribute under another name, and gives it back under the name it had. A codec that
renames one attribute is of this kind. -/
def mapNames (f g : String → String) : Codec where
  serialize := onDocument fun d => .document (renameKeys f d)
  deserialize := onDocument fun d => .document (renameKeys g d)

variable {f g : String → String} {names : List String} {d : Document} {name : String}

theorem renameKeys_eq_map (hinv : ∀ name ∈ d.keys, g (f name) = name) (hk : d.keys.Nodup) :
    renameKeys f d = d.map fun e => (f e.1, e.2) := by
  have hne : ∀ {a b}, a ∈ d.keys → b ∈ d.keys → a ≠ b → f a ≠ f b := by
    intro a b ha hb hne heq
    exact hne (by rw [← hinv a ha, heq, hinv b hb])
  have hnodup : (d.keys.map f).Nodup := List.pairwise_map.mpr (hk.imp_of_mem hne)
  refine Document.ofList_of_nodup ?_
  rw [Document.keys, List.map_map] at hnodup
  rwa [List.map_map]

theorem keys_renameKeys (hinv : ∀ name ∈ d.keys, g (f name) = name) (hk : d.keys.Nodup) :
    (renameKeys f d).keys = d.keys.map f := by
  rw [renameKeys_eq_map hinv hk, Document.keys, Document.keys, List.map_map, List.map_map]
  rfl

theorem get?_renameKeys (hinv : ∀ name ∈ names, g (f name) = name) (hk : d.keys.Nodup)
    (hd : ∀ other ∈ d.keys, other ∈ names) (hname : name ∈ names) :
    (renameKeys f d).get? (f name) = d.get? name := by
  rw [renameKeys_eq_map (fun other ho => hinv other (hd other ho)) hk]
  clear hk
  induction d with
  | nil => rfl
  | cons e d ih =>
    obtain ⟨k, v⟩ := e
    obtain ⟨hk, hd⟩ := List.forall_mem_cons.mp hd
    rw [List.map_cons, Document.get?_cons, Document.get?_cons, ih hd]
    by_cases h : name = k
    · rw [if_pos h, if_pos (congrArg f h)]
    · have hne : f name ≠ f k := by
        intro heq
        exact h (by rw [← hinv name hname, heq, hinv k hk])
      rw [if_neg h, if_neg hne]

theorem strip_renameKeys (hinv : ∀ name ∈ d.keys, g (f name) = name) (hk : d.keys.Nodup) :
    (renameKeys f d).strip = renameKeys f d.strip := by
  have hsub := d.keys_strip_sublist
  rw [renameKeys_eq_map hinv hk, Document.strip_map,
    renameKeys_eq_map (fun name hn => hinv name (hsub.subset hn)) (hk.sublist hsub)]

/-- Whatever part of a renamed document is given its names back, an attribute that the document has
is in it if its new name was in the part, and there are no others. -/
theorem get?_restored (hinv : ∀ name ∈ d.keys, g (f name) = name) (hk : d.keys.Nodup)
    (p : Projection) (name : String) :
    (renameKeys g (p.apply (renameKeys f d))).get? name =
      if name ∈ d.keys then (p.apply (renameKeys f d)).get? (f name) else none := by
  have hkeys := keys_renameKeys hinv hk
  have hrenamed : (renameKeys f d).keys.Nodup := Document.nodup_keys_ofList _
  have hpart : ∀ other ∈ (p.apply (renameKeys f d)).keys, other ∈ d.keys.map f := by
    intro other ho
    rw [← hkeys, ← Document.isSome_get?_iff, Option.isSome_iff_ne_none]
    intro hnone
    rw [← Document.isSome_get?_iff, p.get?_apply_of_absent hnone] at ho
    cases ho
  have hback : ∀ other ∈ d.keys.map f, f (g other) = other := by
    intro other ho
    obtain ⟨a, ha, rfl⟩ := List.mem_map.mp ho
    rw [hinv a ha]
  have hnodup := p.nodup_keys_apply hrenamed
  split
  · rename_i hm
    have hget := get?_renameKeys hback hnodup hpart (List.mem_map_of_mem hm)
    rwa [hinv name hm] at hget
  · rename_i hm
    rw [← Option.not_isSome_iff_eq_none, Document.isSome_get?_iff,
      keys_renameKeys (fun other ho => hback other (hpart other ho)) hnodup]
    intro hmem
    obtain ⟨other, ho, rfl⟩ := List.mem_map.mp hmem
    obtain ⟨a, ha, rfl⟩ := List.mem_map.mp (hpart other ho)
    rw [hinv a ha] at hm
    exact hm ha

end Codec

namespace Storable

theorem firstIdentifier?_congr {d e : Document} {names : List String}
    (h : ∀ name ∈ names, d.get? name = e.get? name) :
    firstIdentifier? d names = firstIdentifier? e names := by
  induction names with
  | nil => rfl
  | cons name names ih =>
    obtain ⟨hname, hnames⟩ := List.forall_mem_cons.mp h
    rw [firstIdentifier?, firstIdentifier?, hname, ih hnames]

/-- `g` takes back what `f` makes of the attributes of a document, and `f` leaves the identifying
ones their names. -/
structure Renames (t : Storable) (f g : String → String) (d : Document) : Prop where
  back : ∀ name, name ∈ d.keys ∨ name ∈ t.identifiers → g (f name) = name
  fixed : ∀ name ∈ t.identifiers, f name = name

/-- What the projection of a selection leaves of a record that is kept under other names, with its
own names again. -/
def restored (t : Storable) (f g : String → String) (selector : Selector) (d : Document) :
    Document :=
  Codec.renameKeys g ((Store.projectionFor t selector).apply (Codec.renameKeys f d))

variable {t : Storable} {f g : String → String} {d : Document} {name : String}
  {selector : Selector}

namespace Renames

theorem strip (h : t.Renames f g d) : t.Renames f g d.strip where
  back name hm := h.back name (hm.imp_left fun hd => d.keys_strip_sublist.subset hd)
  fixed := h.fixed

theorem back_of_mem (h : t.Renames f g d) : ∀ name ∈ d.keys, g (f name) = name :=
  fun name hm => h.back name (.inl hm)

theorem get?_eq (h : t.Renames f g d) (hk : d.keys.Nodup)
    (hm : name ∈ d.keys ∨ name ∈ t.identifiers) :
    (Codec.renameKeys f d).get? (f name) = d.get? name := by
  have hback : ∀ other ∈ d.keys ++ t.identifiers, g (f other) = other :=
    fun other ho => h.back other (List.mem_append.mp ho)
  exact Codec.get?_renameKeys hback hk (fun other ho => List.mem_append_left _ ho)
    (List.mem_append.mpr hm)

theorem not_mem_identifiers (h : t.Renames f g d) (hd : name ∈ d.keys)
    (hm : name ∉ t.identifiers) : f name ∉ t.identifiers := by
  intro hf
  have hsame : f name = name := by
    have hback := h.back (f name) (.inr hf)
    rwa [h.fixed _ hf, h.back name (.inl hd), eq_comm] at hback
  rw [hsame] at hf
  exact hm hf

theorem identifierOf_eq (h : t.Renames f g d) (hk : d.keys.Nodup) :
    t.identifierOf (Codec.renameKeys f d) = t.identifierOf d := by
  have hget : ∀ name ∈ t.identifiers, (Codec.renameKeys f d).get? name = d.get? name := by
    intro name hm
    have hname := h.get?_eq hk (.inr hm)
    rwa [h.fixed name hm] at hname
  rw [identifierOf, identifierOf, firstIdentifier?_congr hget]

/-- An attribute comes back as from a store that keeps the names, if it identifies the record or the
selection says the same of both its names. -/
theorem rel_restored (h : t.Renames f g d) (hk : d.keys.Nodup)
    (hids : ∀ name ∈ t.identifiers, Path.IsName name) (hs : selector.Canonical)
    (hsame : name ∈ d.keys → name ∈ t.identifiers ∨ selector.get (f name) = selector.get name) :
    Option.Rel Value.Alike ((t.restored f g selector d).get? name)
      (((Store.projectionFor t selector).apply d).get? name) := by
  rw [restored, Codec.get?_restored h.back_of_mem hk]
  cases hd : d.get? name with
  | none =>
    have hm : name ∉ d.keys := by simp [← Document.isSome_get?_iff, hd]
    rw [if_neg hm, Projection.get?_apply_of_absent _ hd]
    exact .none
  | some v =>
    have hm : name ∈ d.keys := by simp [← Document.isSome_get?_iff, hd]
    have hrenamed := (h.get?_eq hk (.inl hm)).trans hd
    rw [if_pos hm]
    by_cases hid : name ∈ t.identifiers
    · have hwhole := selector.toProjection.get?_apply_withPaths hid (hids name hid)
      rw [h.fixed name hid] at hrenamed ⊢
      rw [Store.projectionFor, hwhole, hwhole, hrenamed, hd]
      exact .some (.refl v)
    · have hfid := h.not_mem_identifiers hm hid
      obtain ⟨rows, hrows, hr⟩ := Selector.restricts_withPaths hs hids hd
      obtain ⟨rows', hrows', hr'⟩ := Selector.restricts_withPaths hs hids hrenamed
      refine hr'.alike hr fun row => ?_
      rw [hrows, hrows', (hsame hm).resolve_left hid]
      simp only [hid, hfid]

theorem get?_restored_eq_none (h : t.Renames f g d) (hk : d.keys.Nodup)
    (hids : ∀ name ∈ t.identifiers, Path.IsName name) (hs : selector.Canonical)
    (hid : name ∉ t.identifiers) (hn : selector.get (f name) = .nothing) :
    (t.restored f g selector d).get? name = none := by
  rw [restored, Codec.get?_restored h.back_of_mem hk]
  split
  · rename_i hm
    cases hd : (Codec.renameKeys f d).get? (f name) with
    | none => exact Projection.get?_apply_of_absent _ hd
    | some v =>
      obtain ⟨rows, hrows, hr⟩ := Selector.restricts_withPaths hs hids hd
      obtain rfl : rows = [] := by
        refine List.eq_nil_iff_forall_not_mem.mpr fun row hrow => ?_
        obtain hrow | ⟨-, hfid⟩ := (hrows row).mp hrow
        · rw [hn] at hrow
          cases hrow
        · exact h.not_mem_identifiers hm hid hfid
      exact hr.eq_none_of_nil
  · rfl

theorem alike_pick_restored (h : t.Renames f g d) (hk : d.keys.Nodup)
    (hids : ∀ name ∈ t.identifiers, Path.IsName name) (hs : selector.Canonical)
    (hsame : ∀ name ∈ d.keys, name ∉ t.identifiers → selector.get name ≠ .nothing →
      selector.get (f name) = selector.get name) :
    ((t.restored f g selector d).pick selector t.identifiers).Alike (t.shown selector d) := by
  refine Selector.alike_pick fun name htaken => h.rel_restored hk hids hs fun hm => ?_
  by_cases hid : name ∈ t.identifiers
  · exact .inl hid
  · exact .inr (hsame name hm hid (htaken.resolve_left hid))

end Renames

end Storable

namespace Store

def renamed (s : Store Collections) (f g : String → String) : Store Collections :=
  { s with codec := .mapNames f g }

/-- Saving a document takes effect, and loading it right after comes to the answer. -/
def GivesBack (s : Store Collections) (storable : String) (d key : Document) (o : SaveOptions)
    (lo : LoadOptions) (session : Session Collections) (answer : Document) : Prop :=
  ∃ after last, s.save storable d o session = .ok true after ∧
    s.load storable key lo after = .ok (some answer) last

variable {s : Store Collections} {storable : String} {t : Storable} {id : Identifier}
  {d key record answer : Document} {o : SaveOptions} {flags : SaveFlags} {lo : LoadOptions}
  {session : Session Collections} {f g : String → String}

theorem load_of_read? (hb : s.backend = .memory) (ht : s.storables.get storable = .ok t)
    (hkey : s.identify t key = .ok [(id.name, id.value)]) {c : Collections}
    (hread : c.read? t.collection id = some record)
    (hshape : s.shape t lo.selector ((projectionFor t lo.selector).apply record) = .ok answer)
    (log : List LogRecord) :
    ∃ last, s.load storable key lo ⟨c, log⟩ = .ok (some answer) ⟨c, last⟩ := by
  have hread : c.read? t.collection ⟨id.name, id.value⟩ = some record := hread
  obtain ⟨last, hload⟩ := reads_load hb storable key lo log
  refine ⟨last, hload.trans ?_⟩
  simp only [ht, hkey, Identifier.ofDocument?, hread, hshape, bind, Except.bind]
  rfl

theorem givesBack_of_shape (hb : s.backend = .memory) (ht : s.storables.get storable = .ok t)
    (hrecord : s.codec.encode d = .ok record)
    (hid : t.identifierOf record = .ok [(id.name, id.value)])
    (hkey : s.identify t key = .ok [(id.name, id.value)])
    (hfree : (session.contents.records t.collection).any id.matchesRecord = false)
    (hfound : id.matchesRecord record.strip = true) (hnew : o.isNew = true)
    (hflags : o.resolve = .ok flags)
    (hshape : s.shape t lo.selector ((projectionFor t lo.selector).apply record.strip) =
      .ok answer) : s.GivesBack storable d key o lo session answer := by
  have hcreate : session.contents.create? t.collection ⟨id.name, id.value⟩ record.strip =
      some (session.contents.set t.collection
        (session.contents.records t.collection ++ [record.strip])) :=
    if_neg (Bool.eq_false_iff.mp hfree)
  obtain ⟨log, hsave⟩ : ∃ log, s.save storable d o session = .ok true
      ⟨session.contents.set t.collection
        (session.contents.records t.collection ++ [record.strip]), log⟩ := by
    rw [save_of_identified hflags ht hrecord hid, hnew, if_pos rfl, saveNew_eq hb, hcreate]
    exact ⟨_, rfl⟩
  have hread : (session.contents.set t.collection (session.contents.records t.collection ++
      [record.strip])).read? t.collection id = some record.strip := by
    rw [Collections.read?, Collections.records_set, if_pos rfl]
    exact (Identifier.addresses_append hfree hfound).find?_eq
  obtain ⟨last, hload⟩ := load_of_read? hb ht hkey hread hshape log
  exact ⟨_, _, hsave, hload⟩

theorem Designates.identify_renamed (hkey : s.Designates storable key t id)
    (hfixed : ∀ name ∈ t.identifiers, f name = name) :
    (s.renamed f g).identify t key = .ok [(id.name, id.value)] := by
  rw [identify, hkey.identifier]
  change Except.ok [(f id.name, id.value)] = _
  rw [hfixed id.name hkey.mem_identifiers]

/-- Saving a document and loading it gives the same with the attributes kept under other names, but
for their order, if the selection says of the name that an attribute is kept under what it says of
its own. Identifying attributes, and those that are not selected, do not matter. Any other attribute
is lost if the selection says nothing of the name that it is kept under. -/
theorem InMemory.givesBack_renamed (hs : s.InMemory) (hd : s.Designates storable d t id)
    (hkey : s.Designates storable key t id) (hk : d.keys.Nodup)
    (hsettled : id.value.Settled) (hsame : id.value.same id.value = true)
    (hids : ∀ name ∈ t.identifiers, Path.IsName name) (hnames : t.Renames f g d)
    (hselector : lo.selector.Canonical) (hnew : o.isNew = true) (hflags : o.resolve = .ok flags)
    (hfree : (session.contents.records t.collection).any id.matchesRecord = false) :
    ∃ p q, s.GivesBack storable d key o lo session p ∧
      (s.renamed f g).GivesBack storable d key o lo session q ∧
      ((∀ name ∈ d.strip.keys, name ∉ t.identifiers → lo.selector.get name ≠ .nothing →
        lo.selector.get (f name) = lo.selector.get name) → q.Alike p) ∧
      ∀ name, name ∉ t.identifiers → lo.selector.get (f name) = .nothing →
        q.get? name = none := by
  have hkstrip : d.strip.keys.Nodup := hk.sublist d.keys_strip_sublist
  have hfound := Identifier.matchesRecord_strip hd.get?_eq hsettled hsame
  have hrecord : (Codec.renameKeys f d).strip = Codec.renameKeys f d.strip :=
    Codec.strip_renameKeys hnames.back_of_mem hk
  refine ⟨t.shown lo.selector d.strip,
    (t.restored f g lo.selector d.strip).pick lo.selector t.identifiers, ?_, ?_, ?_, ?_⟩
  · exact givesBack_of_shape hs.backend hd.storable (hs.encode_eq d) hd.identifier
      (hkey.identify_eq hs) hfree hfound hnew hflags (hs.shape_eq t lo.selector _)
  · have hid : t.identifierOf (Codec.renameKeys f d) = .ok [(id.name, id.value)] :=
      (hnames.identifierOf_eq hk).trans hd.identifier
    have hget : (Codec.renameKeys f d.strip).get? id.name = d.strip.get? id.name := by
      have hname := hnames.strip.get?_eq hkstrip (.inr hd.mem_identifiers)
      rwa [hnames.fixed id.name hd.mem_identifiers] at hname
    have hfoundRenamed : id.matchesRecord (Codec.renameKeys f d).strip = true := by
      rw [hrecord, Identifier.matchesRecord, hget]
      exact hfound
    refine givesBack_of_shape hs.backend hd.storable rfl hid
      (hkey.identify_renamed hnames.fixed) hfree hfoundRenamed hnew hflags ?_
    rw [hrecord]
    rfl
  · exact hnames.strip.alike_pick_restored hkstrip hids hselector
  · intro name hid hn
    rw [Selector.get?_pick, if_neg hid,
      hnames.strip.get?_restored_eq_none hkstrip hids hselector hid hn]
    exact ite_self none

/-- Years kept under another name: a selection of both names gives the year back, whatever it
selects inside another attribute, and one of the year alone loses it. -/
theorem InMemory.givesBack_renamed_film :
    let s : Store Collections :=
      { new Backend.memory with storables := ⟨[⟨"film", "films", ["id"]⟩]⟩ }
    let years : Store Collections := { s with codec := .rename "year" "released" }
    let t : Storable := ⟨"film", "films", ["id"]⟩
    let f := Codec.swapName "year" "released"
    let g := Codec.swapName "released" "year"
    let d : Document := [("year", .int32 1979), ("gone", .undefined), ("id", .string "alien"),
      ("cast", .array [.document [("by", .string "Weaver"), ("as", .string "Ripley")]])]
    let key : Document := [("id", .string "alien")]
    let both : Selector :=
      .fields [("cast", .fields [("by", .all)]), ("year", .all), ("released", .all)]
    let year : Selector := .fields [("year", .all)]
    let session := Session.start Collections.empty
    s.InMemory ∧ t.Renames f g d ∧ both.Canonical ∧ year.Canonical ∧
      (∃ p q, s.GivesBack "film" d key { isNew := true } { selector := both } session p ∧
        years.GivesBack "film" d key { isNew := true } { selector := both } session q ∧
        q.Alike p) ∧
      ∃ q, years.GivesBack "film" d key { isNew := true } { selector := year } session q ∧
        q.get? "year" = none := by
  intro s years t f g d key both year session
  have hs : s.InMemory := ⟨rfl, rfl⟩
  have hnames : t.Renames f g d := by
    have hback : ∀ name ∈ d.keys ++ t.identifiers, g (f name) = name := by decide
    exact ⟨fun name hm => hback name (List.mem_append.mpr hm), by decide⟩
  have hone : ∀ name, Path.IsName name → Selector.Normal (.fields [(name, .all)]) := fun name h =>
    Selector.normal_cons_iff.mpr ⟨List.not_mem_nil, h, .all, Selector.normal_fields_nil⟩
  have hboth : LoadOptions.selector { selector := both } |>.Canonical := by
    refine .inr (Selector.normal_cons_iff.mpr ⟨by decide, by decide, hone "by" (by decide), ?_⟩)
    exact Selector.normal_cons_iff.mpr ⟨by decide, by decide, .all, hone "released" (by decide)⟩
  have hyear : LoadOptions.selector { selector := year } |>.Canonical :=
    .inr (hone "year" (by decide))
  have hd : s.Designates "film" d t ⟨"id", .string "alien"⟩ := ⟨rfl, rfl⟩
  have hkey : s.Designates "film" key t ⟨"id", .string "alien"⟩ := ⟨rfl, rfl⟩
  have hk : d.keys.Nodup := by decide
  have hsettled : (Value.string "alien").Settled := Value.IsPlain.settled ⟨nofun, nofun⟩ nofun
  have hids : ∀ name ∈ t.identifiers, Path.IsName name := by decide
  have hresolve : ({ isNew := true } : SaveOptions).resolve = .ok _ := rfl
  refine ⟨hs, hnames, hboth, hyear, ?_, ?_⟩
  · obtain ⟨p, q, hp, hq, halike, -⟩ := hs.givesBack_renamed hd hkey hk hsettled rfl hids hnames
      hboth rfl hresolve (rfl : (session.contents.records "films").any _ = false)
    have hagree : ∀ name ∈ ["year", "id", "cast"], both.get (f name) = both.get name := by
      simp only [List.forall_mem_cons]
      exact ⟨rfl, rfl, rfl, List.forall_mem_nil _⟩
    exact ⟨p, q, hp, hq, halike fun name hm _ _ => hagree name hm⟩
  · obtain ⟨p, q, hp, hq, -, hlost⟩ := hs.givesBack_renamed hd hkey hk hsettled rfl hids hnames
      hyear rfl hresolve (rfl : (session.contents.records "films").any _ = false)
    exact ⟨q, hq, hlost "year" (by decide) rfl⟩

/-- The engine is not asked for the name that a year is kept under, and gives none. -/
theorem InMemory.renamed_loses_selected :
    ¬ ∀ (s : Store Collections) (f g : String → String) (storable : String) (d key : Document)
      (t : Storable) (id : Identifier) (x : String) (o : SaveOptions) (lo : LoadOptions)
      (p q : Document),
      s.InMemory → s.Designates storable d t id → s.Designates storable key t id →
        id.value = .string x → d.isNamed = true → (∀ name ∈ t.identifiers, Path.IsName name) →
        t.Renames f g d → (∀ name : String, name.toList.head? = some '$' → f name = name) →
        lo.selector.Canonical → o.isNew = true →
        s.GivesBack storable d key o lo (Session.start Collections.empty) p →
        (s.renamed f g).GivesBack storable d key o lo (Session.start Collections.empty) q →
        q.Alike p := by
  intro h
  have hnames : Storable.Renames ⟨"film", "films", ["id"]⟩ (Codec.swapName "year" "released")
      (Codec.swapName "released" "year") [("id", .string "m1"), ("year", .int64 1979)] := by
    have hback : ∀ name ∈ ["id", "year", "id"], Codec.swapName "released" "year"
        (Codec.swapName "year" "released" name) = name := by decide
    refine ⟨fun name hm => hback name (List.mem_append.mpr hm), by decide⟩
  have halike := h
    { new Backend.memory with storables := ⟨[⟨"film", "films", ["id"]⟩]⟩ } _ _ "film"
    [("id", .string "m1"), ("year", .int64 1979)] [("id", .string "m1")] _ ⟨"id", .string "m1"⟩ "m1"
    { isNew := true } { selector := .fields [("year", .all)] }
    [("year", .int64 1979), ("id", .string "m1")] [("id", .string "m1")]
    ⟨rfl, rfl⟩ ⟨rfl, rfl⟩ ⟨rfl, rfl⟩ rfl (by decide) (by decide) hnames ?_ ?_ rfl
    ⟨_, _, rfl, rfl⟩ ⟨_, _, rfl, rfl⟩
  · exact nomatch (halike.get?_eq_none_iff "year").mp rfl
  · intro name hname
    refine if_neg ?_
    rintro rfl
    exact absurd hname (by decide)
  · exact .inr (Selector.normal_cons_iff.mpr
      ⟨List.not_mem_nil, by decide, .all, Selector.normal_fields_nil⟩)

end Store

end RecordStore
