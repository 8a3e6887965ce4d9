import RecordStore.Config
import RecordStore.Proofs.Number.Numeral

namespace RecordStore

theorem ConfigFault.code_toError (fault : ConfigFault) : fault.toError.code = "CONFIG" := by
  cases fault <;> rfl

namespace StoreConfig

/-- The text writes a number that a machine word holds. -/
def SpellsSize (text : String) (n : Nat) : Prop := Numeral.Writes text.toList n ∧ n < 2 ^ 64

structure Sizes where
  queryDepth : Option Nat
  inSet : Option Nat
  limit : Option Nat

/-- Each variable that is set spells the size for its limit, and for the others there is none. -/
structure Sizes.SpelledBy (sizes : Sizes) (lookup : String → Option String) : Prop where
  queryDepth : Option.Rel SpellsSize (lookup "DOCSTORE_MAX_QUERY_DEPTH") sizes.queryDepth
  inSet : Option.Rel SpellsSize (lookup "DOCSTORE_MAX_IN_SET") sizes.inSet
  limit : Option.Rel SpellsSize (lookup "DOCSTORE_MAX_LIMIT") sizes.limit

/-- A limit for which there is no size is kept, and so is all that is no limit. -/
def withSizes (c : StoreConfig) (sizes : Sizes) : StoreConfig :=
  { c with
    maxQueryDepth := sizes.queryDepth.getD c.maxQueryDepth
    maxInSet := sizes.inSet.getD c.maxInSet
    maxLimit := sizes.limit.getD c.maxLimit }

/-- No limit is zero, and the spellings that aliases and extensions add begin with the marker and
do not end there. -/
structure Valid (c : StoreConfig) : Prop where
  queryDepth : c.maxQueryDepth ≠ 0
  inSet : c.maxInSet ≠ 0
  limit : c.maxLimit ≠ 0
  tokens : ∀ token ∈ c.aliases.map Prod.fst ++ c.extensions,
    (∃ rest, token.toList = '$' :: rest) ∧ 2 ≤ token.utf8ByteSize

theorem hasMarker_iff {token : String} :
    hasMarker token = true ↔ (∃ rest, token.toList = '$' :: rest) ∧ 2 ≤ token.utf8ByteSize := by
  rw [hasMarker, looksLikeOperator, Bool.and_eq_true, decide_eq_true_iff, beq_iff_eq,
    List.head?_eq_some_iff]

theorem validate_eq_ok_iff {c : StoreConfig} : c.validate = .ok () ↔ c.Valid := by
  unfold validate
  split
  case isTrue hzero =>
    refine iff_of_false nofun fun h => ?_
    exact hzero.elim h.queryDepth fun hzero => hzero.elim h.inSet h.limit
  case isFalse hlimits =>
    simp only [not_or] at hlimits
    split
    case h_1 token hfound =>
      have hmarker := List.find?_some hfound
      refine iff_of_false nofun fun h => ?_
      have hvalid := hasMarker_iff.mpr (h.tokens token (List.mem_of_find?_eq_some hfound))
      simp [hvalid] at hmarker
    case h_2 hnone =>
      refine iff_of_true rfl ⟨hlimits.1, hlimits.2.1, hlimits.2.2, fun token hm => ?_⟩
      exact hasMarker_iff.mp (by simpa using List.find?_eq_none.mp hnone token hm)

theorem parseSize_eq_some_iff {text : String} {n : Nat} :
    parseSize text = some n ↔ SpellsSize text n := by
  rw [parseSize, Numeral.unsignedBelow?_eq_some_iff, Numeral.unsigned?_trim_eq_some_iff]
  exact Iff.rfl

section Variables

variable {lookup : String → Option String} {c c' : StoreConfig} {name : String}
  {assign : StoreConfig → Nat → StoreConfig}
  {overrides : List (String × (StoreConfig → Nat → StoreConfig))}

theorem applyVariable_eq_ok_iff {value : Option String} :
    applyVariable name value assign c = .ok c' ↔
      ∃ size, Option.Rel SpellsSize value size ∧ size.elim c (assign c) = c' := by
  cases value with
  | none =>
    rw [applyVariable, Except.ok.injEq]
    constructor
    · exact fun h => ⟨none, .none, h⟩
    · rintro ⟨size, hsize, h⟩
      cases hsize
      exact h
  | some text =>
    rw [applyVariable]
    constructor
    · intro h
      cases hread : parseSize text with
      | none => simp [hread] at h
      | some n =>
        rw [hread] at h
        exact ⟨some n, .some (parseSize_eq_some_iff.mp hread), Except.ok.inj h⟩
    · rintro ⟨size, hsize, h⟩
      cases hsize with
      | some hspells => rw [parseSize_eq_some_iff.mpr hspells, ← h, Option.elim_some]

theorem overlayWith_cons_eq_iff :
    overlayWith lookup ((name, assign) :: overrides) c = (c', none) ↔
      ∃ size, Option.Rel SpellsSize (lookup name) size ∧
        overlayWith lookup overrides (size.elim c (assign c)) = (c', none) := by
  rw [overlayWith]
  constructor
  · intro h
    cases hone : applyVariable name (lookup name) assign c with
    | error fault => simp [hone] at h
    | ok next =>
      rw [hone] at h
      obtain ⟨size, hsize, rfl⟩ := applyVariable_eq_ok_iff.mp hone
      exact ⟨size, hsize, h⟩
  · rintro ⟨size, hsize, h⟩
    rw [applyVariable_eq_ok_iff.mpr ⟨size, hsize, rfl⟩]
    exact h

theorem overlayWith_keeps {α : Type} (field : StoreConfig → α)
    (h : ∀ o ∈ overrides, ∀ c n, field (o.2 c n) = field c) (c : StoreConfig) :
    field (overlayWith lookup overrides c).1 = field c := by
  induction overrides generalizing c with
  | nil => rfl
  | cons o overrides ih =>
    obtain ⟨hfirst, hrest⟩ := List.forall_mem_cons.mp h
    rw [overlayWith]
    cases hone : applyVariable o.1 (lookup o.1) o.2 c with
    | error fault => rfl
    | ok next =>
      obtain ⟨size, -, rfl⟩ := applyVariable_eq_ok_iff.mp hone
      refine (ih hrest _).trans ?_
      cases size with
      | none => rfl
      | some n => exact hfirst c n

end Variables

variable {lookup : String → Option String} {c c' : StoreConfig}

theorem overlay_fst : (c.overlay lookup).1 = (overlayWith lookup overrides c).1 := by
  unfold overlay
  split
  case h_1 hfault => rw [hfault]
  case h_2 hnone =>
    rw [hnone]
    split <;> rfl

theorem overlay_eq_iff_overlayWith : c.overlay lookup = (c', none) ↔
    overlayWith lookup overrides c = (c', none) ∧ c'.validate = .ok () := by
  unfold overlay
  split
  case h_1 hfault => simp [hfault]
  case h_2 next hnone =>
    rw [hnone]
    constructor
    · intro h
      split at h
      case h_1 hvalid =>
        obtain rfl := (Prod.mk.inj h).1
        exact ⟨rfl, hvalid⟩
      case h_2 => cases h
    · rintro ⟨h, hvalid⟩
      obtain rfl := (Prod.mk.inj h).1
      rw [hvalid]

/-- The three variables are read one after the other, and each overrides a limit of its own. -/
theorem overlayWith_overrides_eq_iff : overlayWith lookup overrides c = (c', none) ↔
    ∃ sizes : Sizes, sizes.SpelledBy lookup ∧ c' = c.withSizes sizes := by
  unfold overrides
  constructor
  · intro h
    obtain ⟨depth, hdepth, h⟩ := overlayWith_cons_eq_iff.mp h
    obtain ⟨inSet, hinSet, h⟩ := overlayWith_cons_eq_iff.mp h
    obtain ⟨limit, hlimit, h⟩ := overlayWith_cons_eq_iff.mp h
    refine ⟨⟨depth, inSet, limit⟩, ⟨hdepth, hinSet, hlimit⟩, (Prod.mk.inj h).1.symm.trans ?_⟩
    cases depth <;> cases inSet <;> cases limit <;> rfl
  · rintro ⟨⟨depth, inSet, limit⟩, ⟨hdepth, hinSet, hlimit⟩, rfl⟩
    refine overlayWith_cons_eq_iff.mpr ⟨depth, hdepth, ?_⟩
    refine overlayWith_cons_eq_iff.mpr ⟨inSet, hinSet, ?_⟩
    refine overlayWith_cons_eq_iff.mpr ⟨limit, hlimit, ?_⟩
    cases depth <;> cases inSet <;> cases limit <;> rfl

theorem overlay_eq_iff : c.overlay lookup = (c', none) ↔
    ∃ sizes : Sizes, sizes.SpelledBy lookup ∧ c' = c.withSizes sizes ∧ c'.Valid := by
  rw [overlay_eq_iff_overlayWith, validate_eq_ok_iff, overlayWith_overrides_eq_iff]
  simp only [← exists_and_right, and_assoc]

theorem withSizes_withSizes (c : StoreConfig) (sizes : Sizes) :
    (c.withSizes sizes).withSizes sizes = c.withSizes sizes := by
  obtain ⟨depth, inSet, limit⟩ := sizes
  cases depth <;> cases inSet <;> cases limit <;> rfl

/-- Overriding succeeds if every variable that is set spells a size and the configuration with these
sizes for its limits is valid, and only then. That configuration is the outcome, and overriding it
once more leaves it as it is. A failure is a fault of configuration. Whether or not there is one,
the spellings that are added to the vocabulary stay. -/
theorem overlay_exact (lookup : String → Option String) (c : StoreConfig) :
    (∀ c', c.overlay lookup = (c', none) ↔
      ∃ sizes : Sizes, sizes.SpelledBy lookup ∧ c' = c.withSizes sizes ∧ c'.Valid) ∧
    (∀ c', c.overlay lookup = (c', none) →
      c'.validate = .ok () ∧ c'.overlay lookup = (c', none)) ∧
    (∀ c' fault, c.overlay lookup = (c', some fault) → fault.toError.code = "CONFIG") ∧
    (c.overlay lookup).1.aliases = c.aliases ∧ (c.overlay lookup).1.extensions = c.extensions := by
  refine ⟨fun c' => overlay_eq_iff, fun c' h => ?_, fun _ fault _ => fault.code_toError, ?_, ?_⟩
  · obtain ⟨sizes, hsizes, rfl, hvalid⟩ := overlay_eq_iff.mp h
    -- the outcome has these sizes already, so they make no difference to it
    have hsame := (c.withSizes_withSizes sizes).symm
    exact ⟨validate_eq_ok_iff.mpr hvalid, overlay_eq_iff.mpr ⟨sizes, hsizes, hsame, hvalid⟩⟩
  · rw [overlay_fst]
    exact overlayWith_keeps aliases (by simp [overrides]) c
  · rw [overlay_fst]
    exact overlayWith_keeps extensions (by simp [overrides]) c

/-- The widest size between blanks, a limit that was zero before, and one that is kept; then a size
that is too wide by one, after another limit has been replaced. -/
theorem overlay_exact_widest :
    let c : StoreConfig := {
      maxInSet := 7, maxLimit := 0, aliases := [("$near", "$in")], extensions := ["$é"] }
    let widest : String → Option String := fun name =>
      if name = "DOCSTORE_MAX_QUERY_DEPTH" then some "\u2003+0018446744073709551615\n"
      else if name = "DOCSTORE_MAX_LIMIT" then some "20" else none
    let tooWide : String → Option String := fun name =>
      if name = "DOCSTORE_MAX_QUERY_DEPTH" then some "5"
      else if name = "DOCSTORE_MAX_IN_SET" then some "18446744073709551616" else none
    let c' : StoreConfig := { c with maxQueryDepth := 18446744073709551615, maxLimit := 20 }
    c.overlay widest = (c', none) ∧ c'.Valid ∧ c'.validate = .ok () ∧
      c'.overlay widest = (c', none) ∧
      ∃ fault, c.overlay tooWide = ({ c with maxQueryDepth := 5 }, some fault) ∧
        fault.toError.code = "CONFIG" ∧ (c.overlay tooWide).1.aliases = c.aliases := by
  intro c widest tooWide c'
  obtain ⟨hiff, hagain, -⟩ := overlay_exact widest c
  obtain ⟨-, -, hcode, haliases, -⟩ := overlay_exact tooWide c
  have hwidest : c.overlay widest = (c', none) := rfl
  have htooWide : c.overlay tooWide = ({ c with maxQueryDepth := 5 },
      some (.notAPositiveInteger "DOCSTORE_MAX_IN_SET" "18446744073709551616")) := rfl
  obtain ⟨-, -, -, hvalid⟩ := (hiff c').mp hwidest
  obtain ⟨hvalidated, hsame⟩ := hagain c' hwidest
  exact ⟨hwidest, hvalid, hvalidated, hsame, _, htooWide, hcode _ _ htooWide, haliases⟩

end StoreConfig

end RecordStore
