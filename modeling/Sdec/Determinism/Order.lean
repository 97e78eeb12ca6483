import Sdec.Codec.DeltaEncode
import Sdec.Diff.Values
import Sdec.Rust.Follows

/-!
# Scratch buffers and the order of components

An encoder on reordered components and with other scratch buffers follows the same encoder on what
it had before: where one succeeds, so does the other, and they write the same. An entity is read
through `find_component`, which the order does not change, and a scratch mask through the part that
the call has just filled.
-/

namespace Sdec

open Rust Bitstream Codec Wire Sorted

variable {build : Build} {schema : Schema} {limits : CodecLimits}

/-! ## Reordered components -/

/-- Two entities with the same components in two orders. The ids of the components differ. -/
structure EntitySnapshot.Reordered (entity other : EntitySnapshot) : Prop where
  id : entity.id = other.id
  components : entity.components.Perm other.components
  distinct : entity.Distinct

/-- Two snapshots of such entities. -/
structure Snapshot.Reordered (snapshot other : Snapshot) : Prop where
  tick : snapshot.tick = other.tick
  entities : List.Forall₂ EntitySnapshot.Reordered snapshot.entities other.entities

variable {entity other : EntitySnapshot}

theorem EntitySnapshot.Reordered.symm (h : entity.Reordered other) : other.Reordered entity :=
  ⟨h.id.symm, h.components.symm, (h.components.pairwise_iff fun hne => hne.symm).mp h.distinct⟩

theorem reordered_symm {entities others : List EntitySnapshot}
    (h : List.Forall₂ EntitySnapshot.Reordered entities others) :
    List.Forall₂ EntitySnapshot.Reordered others entities :=
  (h.imp fun _ _ hab => hab.symm).flip

theorem Snapshot.Reordered.symm {snapshot other : Snapshot} (h : snapshot.Reordered other) :
    other.Reordered snapshot := ⟨h.tick.symm, reordered_symm h.entities⟩

/-- The lookup of a component does not depend on the order. -/
theorem EntitySnapshot.Reordered.find_component (h : entity.Reordered other) :
    findComponent entity = findComponent other := by
  funext id
  cases hfind : findComponent other id with
  | none =>
      unfold findComponent at hfind ⊢
      rw [List.find?_eq_none] at hfind ⊢
      exact fun c hc => hfind c (h.components.mem_iff.mp hc)
  | some c =>
      unfold findComponent at hfind
      have hid : c.id = id := by simpa using List.find?_some hfind
      rw [← hid]
      exact find_component_of_mem h.distinct
        (h.components.mem_iff.mpr (List.mem_of_find?_eq_some hfind))

theorem follows_ensure_known_components (h : entity.Reordered other) :
    Outcome.Follows Eq (ensureKnownComponents schema entity)
      (ensureKnownComponents schema other) := by
  intro u hu
  refine ⟨u, ?_, rfl⟩
  unfold ensureKnownComponents at hu ⊢
  rw [forM_eq_ok] at hu ⊢
  exact fun c hc => hu c (h.components.mem_iff.mpr hc)

theorem write_component_mask_reordered (h : entity.Reordered other) :
    writeComponentMask schema entity = writeComponentMask schema other := by
  unfold writeComponentMask
  rw [h.find_component]

theorem follows_write_create_entity (h : entity.Reordered other) :
    Call.Follows Eq (Delta.writeCreateEntity build schema entity limits)
      (Delta.writeCreateEntity build schema other limits) := by
  unfold Delta.writeCreateEntity
  rw [h.id, write_component_mask_reordered h, h.find_component]
  refine Call.Follows.bind_same _ fun _ => Call.Follows.bind_same _ fun _ => ?_
  refine (Call.Follows.lift (follows_ensure_known_components h)).bind fun _ _ _ => ?_
  exact Call.Follows.refl _

theorem follows_write_entities {entities others : List EntitySnapshot}
    (h : List.Forall₂ EntitySnapshot.Reordered entities others) (prev : Option UInt32) :
    Call.Follows Eq (Full.writeEntities build schema limits prev entities)
      (Full.writeEntities build schema limits prev others) := by
  induction h generalizing prev with
  | nil => exact Call.Follows.refl _
  | cons hentity _ ih =>
      unfold Full.writeEntities
      rw [hentity.id, write_component_mask_reordered hentity, hentity.find_component,
        hentity.components.length_eq]
      refine Call.Follows.bind_same _ fun _ => Call.Follows.bind_same _ fun _ =>
        Call.Follows.bind_same _ fun _ => Call.Follows.check fun _ => ?_
      refine (Call.Follows.lift (follows_ensure_known_components hentity)).bind fun _ _ _ => ?_
      refine Call.Follows.bind_same _ fun _ => Call.Follows.bind_same _ fun _ => ?_
      exact ih _

/-! ## Scans -/

variable {base base' curr curr' : EntitySnapshot} (hbase : base.Reordered base')
  (hcurr : curr.Reordered curr')

include hbase hcurr

theorem ensure_component_presence_reordered :
    ensureComponentPresenceMatches schema base curr
      = ensureComponentPresenceMatches schema base' curr' := by
  unfold ensureComponentPresenceMatches
  rw [hbase.find_component, hcurr.find_component]

theorem entity_has_updates_reordered :
    entityHasUpdates build schema limits base curr
      = entityHasUpdates build schema limits base' curr' := by
  have hloop (components : List ComponentDef) :
      entityHasUpdatesLoop build limits base curr components
        = entityHasUpdatesLoop build limits base' curr' components := by
    induction components with
    | nil => rfl
    | cons component components ih =>
        unfold entityHasUpdatesLoop
        rw [ih, hbase.find_component, hcurr.find_component]
  unfold entityHasUpdates
  rw [hloop, ensure_component_presence_reordered hbase hcurr]

omit hbase hcurr in
/-- The computed mask does not depend on what the slots held before. -/
theorem compute_field_mask_loop_congr {id : ComponentId} {fields : List FieldDef}
    {baseline current : List FieldValue} {slots slots' : List Bool}
    (hbaseline : baseline.length = fields.length) (hcurrent : current.length = fields.length)
    (hslots : slots.length = fields.length) (hslots' : slots'.length = fields.length) :
    computeFieldMaskLoop build id fields baseline current slots
      = computeFieldMaskLoop build id fields baseline current slots' := by
  induction fields generalizing baseline current slots slots' with
  | nil => rw [List.eq_nil_of_length_eq_zero hslots, List.eq_nil_of_length_eq_zero hslots']
  | cons field fields ih =>
      obtain ⟨b, baseline, rfl⟩ := List.exists_cons_of_length_eq_add_one hbaseline
      obtain ⟨c, current, rfl⟩ := List.exists_cons_of_length_eq_add_one hcurrent
      obtain ⟨slot, slots, rfl⟩ := List.exists_cons_of_length_eq_add_one hslots
      obtain ⟨slot', slots', rfl⟩ := List.exists_cons_of_length_eq_add_one hslots'
      unfold computeFieldMaskLoop
      rw [ih (Nat.succ.inj hbaseline) (Nat.succ.inj hcurrent) (Nat.succ.inj hslots)
        (Nat.succ.inj hslots')]

omit hbase hcurr in
theorem length_take_ensure (scratch : CodecScratch) (components fields : Nat) :
    ((scratch.ensure components fields).fieldMask.take fields).length = fields := by
  rw [List.length_take]
  exact Nat.min_eq_left (length_ensure_capacity scratch.fieldMask fields)

omit hbase hcurr in
theorem check_field_counts_ok {component : ComponentDef} {b c : ComponentSnapshot} {u : Unit}
    (h : checkFieldCounts limits component b c = .ok u) :
    b.fields.length = component.fields.length ∧ c.fields.length = component.fields.length := by
  unfold checkFieldCounts at h
  obtain ⟨hlengths, -⟩ := check_fail_eq_ok.mp h
  rw [not_or, not_not, not_not] at hlengths
  exact hlengths

/-- A scan finds the same with any scratch buffers. -/
theorem follows_scan_component (component : ComponentDef) (scratch scratch' : CodecScratch) :
    Outcome.Follows (fun p q => p.1 = q.1)
      (scanComponent build schema limits base curr component scratch)
      (scanComponent build schema limits base' curr' component scratch') := by
  unfold scanComponent
  rw [hbase.find_component, hcurr.find_component]
  cases findComponent base' component.id with
  | none =>
      cases findComponent curr' component.id with
      | none => exact Outcome.Follows.pure rfl
      | some c => exact Outcome.Follows.fail _ _
  | some b =>
      cases findComponent curr' component.id with
      | none => exact Outcome.Follows.fail _ _
      | some c =>
          intro p hp
          obtain ⟨u, hcounts, hp⟩ := bind_eq_ok.mp hp
          obtain ⟨mask, hmask, hp⟩ := bind_eq_ok.mp hp
          cases hp
          obtain ⟨hb, hc⟩ := check_field_counts_ok hcounts
          refine ⟨_, bind_eq_ok.mpr ⟨u, hcounts, bind_eq_ok.mpr ⟨mask, ?_, rfl⟩⟩, rfl⟩
          unfold computeFieldMaskInto at hmask ⊢
          rw [← hmask]
          exact compute_field_mask_loop_congr hb hc (length_take_ensure _ _ _)
            (length_take_ensure _ _ _)

/-! ## Passes over two snapshots -/

omit hbase hcurr

variable {baseline baseline' current current' : Snapshot} (hbaseline : baseline.Reordered baseline')
  (hcurrent : current.Reordered current')

theorem ensure_entities_sorted_reordered {entities others : List EntitySnapshot}
    (h : List.Forall₂ EntitySnapshot.Reordered entities others) :
    ensureEntitiesSorted entities = ensureEntitiesSorted others := by
  have hids : entities.map (fun entity => entity.id.raw) = others.map fun entity =>
      entity.id.raw := by
    induction h with
    | nil => rfl
    | cons hentity _ ih => rw [List.map_cons, List.map_cons, hentity.id, ih]
  unfold ensureEntitiesSorted
  rw [hids]

include hbaseline hcurrent

/-- The merge loops take the same steps. -/
theorem forall₂_merge_steps :
    List.Forall₂ (Step.Rel EntitySnapshot.Reordered EntitySnapshot.Reordered)
      (mergeSteps baseline current) (mergeSteps baseline' current') :=
  forall₂_walk (fun _ _ h => congrArg EntityId.raw h.id) (fun _ _ h => congrArg EntityId.raw h.id)
    hbaseline.entities hcurrent.entities

theorem follows_diff_counts :
    Outcome.Follows Eq (diffCounts build schema limits baseline current)
      (diffCounts build schema limits baseline' current') := by
  refine Outcome.Follows.foldlM (forall₂_merge_steps hbaseline hcurrent)
    (fun s t x y hst hxy => ?_) rfl
  subst hst
  refine hxy.elim (fun b b' _ => ?_) (fun c c' _ => ?_) fun b c b' c' hb hc => ?_
  · exact Outcome.Follows.refl _
  · exact Outcome.Follows.refl _
  · dsimp only
    rw [entity_has_updates_reordered hb hc]
    exact Outcome.Follows.refl _

theorem follows_count_sparse_update_entries (scratch scratch' : CodecScratch) :
    Outcome.Follows (fun p q => p.1 = q.1)
      (countSparseUpdateEntries build schema limits baseline current scratch)
      (countSparseUpdateEntries build schema limits baseline' current' scratch') := by
  refine Outcome.Follows.foldlM (forall₂_merge_steps hbaseline hcurrent)
    (fun s t x y hst hxy => ?_) rfl
  refine hxy.elim (fun b b' _ => ?_) (fun c c' _ => ?_) fun b c b' c' hb hc => ?_
  · exact Outcome.Follows.pure hst
  · exact Outcome.Follows.pure hst
  · dsimp only
    rw [entity_has_updates_reordered hb hc]
    refine Outcome.Follows.bind_same _ fun updated => ?_
    cases updated with
    | false => exact Outcome.Follows.pure hst
    | true =>
        refine Outcome.Follows.foldlM_same (fun component _ s t hst => ?_) hst
        refine (follows_scan_component hb hc component s.2 t.2).bind fun p q hpq => ?_
        rw [hpq, hst]
        cases q.1 with
        | none => exact Outcome.Follows.pure rfl
        | some found => exact Outcome.Follows.pure rfl

theorem follows_select_update_encoding (scratch scratch' : CodecScratch) :
    Outcome.Follows (fun p q => p.1 = q.1)
      (selectUpdateEncoding build schema limits baseline current scratch)
      (selectUpdateEncoding build schema limits baseline' current' scratch') := by
  unfold selectUpdateEncoding
  refine (Outcome.Follows.foldlM (S := fun s t => s.1 = t.1 ∧ s.2.1 = t.2.1)
    (forall₂_merge_steps hbaseline hcurrent) (fun s t x y hst hxy => ?_) ⟨rfl, rfl⟩).bind
      fun p q hpq => ?_
  · refine hxy.elim (fun b b' _ => ?_) (fun c c' _ => ?_) fun b c b' c' hb hc => ?_
    · exact Outcome.Follows.pure hst
    · exact Outcome.Follows.pure hst
    · refine Outcome.Follows.foldlM_same (fun component _ s t hst => ?_) hst
      refine (follows_scan_component hb hc component s.2.2 t.2.2).bind fun p q hpq => ?_
      dsimp only
      rw [hpq, hst.1, hst.2, hc.id]
      cases q.1 with
      | none => exact Outcome.Follows.pure ⟨rfl, rfl⟩
      | some found =>
          dsimp only
          by_cases hpos : found.2.count true > 0
          · rw [if_pos hpos, if_pos hpos]
            exact Outcome.Follows.pure ⟨rfl, rfl⟩
          · rw [if_neg hpos, if_neg hpos]
            exact Outcome.Follows.pure ⟨rfl, rfl⟩
  · dsimp only
    rw [hpq.1, hpq.2]
    by_cases hzero : q.1 = 0
    · rw [if_pos hzero, if_pos hzero]
      exact Outcome.Follows.pure rfl
    · rw [if_neg hzero, if_neg hzero]
      by_cases hle : q.2.1 ≤ q.1
      · rw [if_pos hle, if_pos hle]
        exact Outcome.Follows.pure rfl
      · rw [if_neg hle, if_neg hle]
        exact Outcome.Follows.pure rfl

end Sdec
