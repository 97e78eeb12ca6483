import Sdec.Diff.Order
import Sdec.Format.Masked

/-!
# Masked sections

The body that the masked encoder writes for two snapshots, and that the masked decoder makes the
updates between them of it.
-/

namespace Sdec

open Rust Bits Bitstream Codec Wire Sorted

variable {build : Build} {schema : Schema} {limits : CodecLimits} {pos : Nat}
variable {baseline current : Snapshot}

/-- The entity that a step finds changed in both snapshots, before and after. -/
def changedStep (build : Build) (schema : Schema) :
    Step EntitySnapshot EntitySnapshot → Option (EntitySnapshot × EntitySnapshot)
  | .both b c => (entityUpdate build schema b c).map fun _ => (b, c)
  | _ => none

/-- The changed entities, before and after. -/
def changedPairs (build : Build) (schema : Schema) (baseline current : Snapshot) :
    List (EntitySnapshot × EntitySnapshot) :=
  (mergeSteps baseline current).filterMap (changedStep build schema)

/-- The updates of the delta are those of the changed entities. -/
theorem changed_pairs_updates :
    ((changedPairs build schema baseline current).map fun p =>
        DeltaUpdateEntity.mk p.2.id (componentUpdates build schema p.1 p.2))
      = (diff build schema baseline current).updates := by
  rw [changedPairs, List.map_filterMap, diff, diffSteps]
  refine List.filterMap_congr fun step _ => ?_
  cases step with
  | left b => rfl
  | right c => rfl
  | both b c =>
      rw [changedStep, updateStep, entityUpdate]
      split <;> rfl

/-- The layout of a masked section. -/
def maskedSectionLayout (build : Build) (schema : Schema) (baseline current : Snapshot) : Layout :=
  keyedLayout (fun p => p.2.id.raw) (fun p => componentsLayout schema (maskedContent build p.1 p.2))
    (changedPairs build schema baseline current)

/-- What the changed entities must be for the masked encoder to write them. -/
def ChangesFit (build : Build) (schema : Schema) (limits : CodecLimits)
    (pairs : List (EntitySnapshot × EntitySnapshot)) : Prop :=
  ∀ p ∈ pairs, ∀ component ∈ schema.components, MaskedFits build limits p.1 p.2 component

/-- The body that the masked encoder writes. -/
theorem writes_encode_masked_body {updateCount : Nat} {scratch : CodecScratch} :
    Writes pos
      (Delta.encodeUpdateBodyMasked build schema baseline current updateCount limits scratch)
      (fun _ => updateCount ≤ limits.maxEntitiesUpdate
        ∧ ChangesFit build schema limits (changedPairs build schema baseline current))
      (countedLayout updateCount (maskedSectionLayout build schema baseline current)) := by
  unfold Delta.encodeUpdateBodyMasked
  refine Writes.check fun hcount => writes_counted fun pos => ?_
  refine (?_ : Writes pos _ (fun _ => ChangesFit build schema limits
    (changedPairs build schema baseline current)) _).bind fun _ hfits => ?_
  · rw [maskedSectionLayout, keyedLayout, changedPairs, flatMap_filterMap]
    refine (Writes.foldlM (fun _ => True) (fun step => ∀ p,
      changedStep build schema step = some p → ∀ component ∈ schema.components,
        MaskedFits build limits p.1 p.2 component) trivial fun step _ scratch pos _ => ?_).mono
      fun _ h p hp => ?_
    · cases step with
      | left b => exact Writes.pure ⟨trivial, fun p hp => by cases hp⟩
      | right c => exact Writes.pure ⟨trivial, fun p hp => by cases hp⟩
      | both b c =>
          refine Writes.lift fun changed hchanged => ?_
          have hupdate := entity_has_updates_eq hchanged
          rw [changedStep]
          cases changed with
          | true =>
              obtain ⟨update, hsome⟩ := Option.isSome_iff_exists.mp hupdate.symm
              rw [hsome, Option.map_some, Option.toList_some, List.flatMap_cons, List.flatMap_nil,
                List.append_nil]
              refine writes_align.cons fun _ _ => ?_
              refine (writes_write_id c.id.raw).bind fun _ _ => Writes.lift fun _ _ => ?_
              refine (writes_write_update_components b c scratch).mono fun _ h => ⟨trivial, ?_⟩
              intro p hp
              cases hp
              exact h
          | false =>
              have hnone :=
                Option.isNone_iff_eq_none.mp (Option.isSome_eq_false_iff.mp hupdate.symm)
              rw [hnone]
              exact Writes.pure ⟨trivial, fun p hp => by cases hp⟩
    · obtain ⟨step, hstep, hp⟩ := List.mem_filterMap.mp hp
      exact h.2 step hstep p hp
  · rw [← List.append_nil [Item.align]]
    exact writes_align.bind fun _ _ => Writes.pure ⟨Nat.le_of_not_lt hcount, hfits⟩

/-! ## Reading -/

/-- The changed values of an entity on which the arithmetic of the reader does not panic. -/
def ChangesReadable (build : Build) (schema : Schema)
    (pairs : List (EntitySnapshot × EntitySnapshot)) : Prop :=
  ∀ p ∈ pairs, ∀ component ∈ schema.components, ∀ snapshot mask,
    scanned build p.1 p.2 component = some (snapshot, mask) →
      MaskedReadable build component mask snapshot.fields

/-- The layout and the update of a changed component. -/
def changedContent (build : Build) (base curr : EntitySnapshot) (component : ComponentDef) :
    Option (Layout × DeltaUpdateComponent) :=
  match scanned build base curr component with
  | some (snapshot, mask) =>
      if mask.any id then some (maskedLayout component mask snapshot.fields,
        ⟨component.id, changedFields 0 mask snapshot.fields⟩) else none
  | none => none

theorem changed_content_layout (base curr : EntitySnapshot) (component : ComponentDef) :
    (changedContent build base curr component).map Prod.fst
      = maskedContent build base curr component := by
  rw [changedContent, maskedContent]
  cases scanned build base curr component with
  | none => rfl
  | some p =>
      dsimp only
      split <;> rfl

theorem changed_content_update (base curr : EntitySnapshot) (component : ComponentDef) :
    (changedContent build base curr component).map Prod.snd
      = componentUpdate build base curr component := by
  rw [changedContent, componentUpdate]
  cases scanned build base curr component with
  | none => rfl
  | some p =>
      dsimp only
      split <;> rfl

/-- Reading the changed components of an entity back. -/
theorem reads_read_changed_components (hschema : schema.Valid) {base curr : EntitySnapshot}
    (hfits : ∀ component ∈ schema.components, MaskedFits build limits base curr component) :
    Reads pos (readComponents (fun component => do
        let fields ← Delta.decodeUpdateComponent build component limits
        return DeltaUpdateComponent.mk component.id fields)
        (schema.components.map fun component => (maskedContent build base curr component).isSome) 0
        schema.components)
      (∀ component ∈ schema.components, ∀ snapshot mask,
        scanned build base curr component = some (snapshot, mask) →
          MaskedReadable build component mask snapshot.fields)
      (schema.components.flatMap fun component =>
        (maskedContent build base curr component).getD [])
      (componentUpdates build schema base curr) := by
  have hbits : (fun component => (maskedContent build base curr component).isSome)
      = fun component => (changedContent build base curr component).isSome := by
    funext component
    rw [← changed_content_layout, Option.isSome_map]
  have h := @reads_read_components pos _ (fun component => do
    let fields ← Delta.decodeUpdateComponent build component limits
    return DeltaUpdateComponent.mk component.id fields) (changedContent build base curr)
    (fun component => ∀ snapshot mask, scanned build base curr component = some (snapshot, mask) →
      MaskedReadable build component mask snapshot.fields)
    (schema.components.map fun component => (changedContent build base curr component).isSome) 0
    schema.components (fun component hcomponent items update hsome pos => ?_) rfl
  · rw [hbits, componentUpdates]
    have h : Reads pos _ _ _ _ := h
    simp only [changed_content_layout, changed_content_update] at h
    refine h.congr
      (forall₂_congr fun component _ => ⟨fun h snapshot mask hscan => ?_, fun h _ => h⟩)
    by_cases hany : mask.any id
    · refine h ?_ snapshot mask hscan
      rw [changedContent, hscan]
      dsimp only
      rw [if_pos hany]
      rfl
    · -- A mask without a bit has no value to read.
      intro p hp hchanged
      exact absurd (List.any_eq_true.mpr ⟨p.2, (List.of_mem_zip hp).2, hchanged⟩) hany
  · rw [changedContent] at hsome
    split at hsome
    · rename_i snapshot mask hscan
      split at hsome
      · rename_i hany
        cases hsome
        obtain ⟨hmask, hvalues, hlimit, hencodes⟩ :=
          hfits component hcomponent snapshot mask hscan hany
        refine (reads_decode_update_component (hschema.components component hcomponent) hlimit hmask
          hvalues hany hencodes).bind_pure.congr ⟨fun h snapshot' mask' hscan' => ?_,
            fun h => h snapshot mask hscan⟩
        rw [hscan] at hscan'
        cases hscan'
        exact h
      · cases hsome
    · cases hsome

/-- What the masked decoder makes of the body that the masked encoder writes. -/
theorem decode_masked_section_eq_ok (hschema : schema.Valid)
    (hbaseline : Ascending baseline.entities) (hcurrent : Ascending current.entities)
    (hfits : ChangesFit build schema limits (changedPairs build schema baseline current))
    {body : List UInt8} {result : List DeltaUpdateEntity} {count : Nat}
    (hcount : count = (diff build schema baseline current).updates.length)
    (hbody : ofBytes body
      = render 0 (countedLayout count (maskedSectionLayout build schema baseline current)))
    (hlong : body.length < 2 ^ 32) (hsmall : count < 2 ^ 32) :
    Delta.decodeUpdateSectionMasked build schema body limits = .ok result ↔
      (body.length ≤ limits.maxSectionBytes ∧ count ≤ limits.maxEntitiesUpdate
        ∧ ChangesReadable build schema (changedPairs build schema baseline current))
        ∧ (diff build schema baseline current).updates = result := by
  have hlength : (changedPairs build schema baseline current).length = count := by
    rw [hcount, ← changed_pairs_updates, List.length_map]
  have hascend : AscendFrom (· < ·) none
      ((changedPairs build schema baseline current).map fun p => p.2.id.raw) := by
    have := @diff_updates_ascend build schema _ _ hbaseline hcurrent
    rw [← changed_pairs_updates] at this
    rw [ascend_from_none]
    exact List.pairwise_map.mpr
      ((List.pairwise_map (R := fun (a b : DeltaUpdateEntity) => a.id.raw < b.id.raw)).mp this)
  have hread (pos : Nat) : Reads pos (readAscending (fun id => do
      let componentMask ← readMask schema.components.length .componentMask
      let components ← readComponents (fun component => do
        let fields ← Delta.decodeUpdateComponent build component limits
        return DeltaUpdateComponent.mk component.id fields) componentMask 0 schema.components
      return DeltaUpdateEntity.mk ⟨id⟩ components)
        (changedPairs build schema baseline current).length none)
      (ChangesReadable build schema (changedPairs build schema baseline current))
      (maskedSectionLayout build schema baseline current)
      ((changedPairs build schema baseline current).map fun p =>
        DeltaUpdateEntity.mk p.2.id (componentUpdates build schema p.1 p.2)) := by
    refine reads_read_ascending (fun p hp pos => ?_) hascend
    refine parses_read_component_mask.bind_reads ?_
    exact (reads_read_changed_components hschema (hfits p hp)).bind_pure
  rw [hlength, changed_pairs_updates] at hread
  exact read_section_eq_ok hbody (bits_le_usize_max hlong) hsmall hread

end Sdec
