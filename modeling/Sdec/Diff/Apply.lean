import Sdec.Codec.DeltaDecode
import Sdec.Format.WellFormed
import Sdec.Rust.Ensures
import Sdec.Sorted.Update

/-!
# Applying a delta

What the three passes that apply a delta make of the entities of a baseline. Destroys must name
entities that are there, creates entities that are not, and an update changes the entity with its id
in place.
-/

namespace Sdec

open Rust Codec Sorted

/-- Entities with the ids of ascending ones ascend. -/
theorem ascending_of_ids_eq {entities other : List EntitySnapshot} (h : Ascending other)
    (hids : entities.map EntitySnapshot.id = other.map EntitySnapshot.id) : Ascending entities := by
  have hpairs : (other.map EntitySnapshot.id).Pairwise fun a b => a.raw < b.raw :=
    List.pairwise_map.mpr h
  rw [← hids] at hpairs
  exact (List.pairwise_map (R := fun (a b : EntityId) => a.raw < b.raw)).mp hpairs

variable {baseline creates result : List EntitySnapshot} {destroys : List EntityId}

/-! ## Destroys and creates -/

/-- The entity that a step along the destroyed ids keeps. -/
def keptStep : Step EntitySnapshot EntityId → Option EntitySnapshot
  | .left b => some b
  | _ => none

/-- The entity that a step along the created entities adds or keeps. -/
def mergedStep : Step EntitySnapshot EntitySnapshot → Option EntitySnapshot
  | .left b => some b
  | .right c => some c
  | .both _ _ => none

theorem apply_destroys_eq_ok :
    Delta.applyDestroys baseline destroys = .ok result
      ↔ (∀ step ∈ walk entityKey EntityId.raw baseline destroys, ∀ d, step ≠ .right d)
        ∧ result = (walk entityKey EntityId.raw baseline destroys).filterMap keptStep := by
  rw [Delta.applyDestroys]
  refine foldlM_append_eq_ok fun step _ r r' => ?_
  cases step with
  | left b => simp [keptStep, @eq_comm _ r']
  | right d => simp
  | both b d => simp [keptStep, @eq_comm _ r']

theorem apply_creates_eq_ok :
    Delta.applyCreates baseline creates = .ok result
      ↔ (∀ step ∈ walk entityKey entityKey baseline creates, ∀ b c, step ≠ .both b c)
        ∧ result = (walk entityKey entityKey baseline creates).filterMap mergedStep := by
  rw [Delta.applyCreates]
  refine foldlM_append_eq_ok fun step _ r r' => ?_
  cases step with
  | left b => simp [mergedStep, @eq_comm _ r']
  | right c => simp [mergedStep, @eq_comm _ r']
  | both b c => simp

section Membership

variable (hbaseline : Ascending baseline)

include hbaseline

/-- Destroying entities that are there keeps the others in order. -/
theorem apply_destroys_of_mem (hdestroys : destroys.Pairwise fun a b => a.raw < b.raw)
    (hmem : ∀ d ∈ destroys, ∃ b ∈ baseline, b.id = d) :
    ∃ remaining, Delta.applyDestroys baseline destroys = .ok remaining ∧ Ascending remaining
      ∧ ∀ e, e ∈ remaining ↔ e ∈ baseline ∧ e.id ∉ destroys := by
  have halign := aligned_walk hbaseline hdestroys
  refine ⟨_, apply_destroys_eq_ok.mpr ⟨?_, rfl⟩, ?_, fun e => ?_⟩
  · rintro step hstep d rfl
    obtain ⟨hd, hno⟩ := (mem_walk_right hbaseline hdestroys).mp hstep
    obtain ⟨b, hb, rfl⟩ := hmem d hd
    exact hno b hb rfl
  · refine List.pairwise_filterMap.mpr (halign.ascending.imp fun {s t} hlt a ha b hb => ?_)
    cases s <;> cases t <;> simp_all [keptStep, Step.key]
  · rw [List.mem_filterMap]
    constructor
    · rintro ⟨step, hstep, hkept⟩
      cases step with
      | left b =>
          cases hkept
          obtain ⟨hb, hno⟩ := (mem_walk_left hbaseline hdestroys).mp hstep
          exact ⟨hb, fun hd => hno _ hd rfl⟩
      | right d => cases hkept
      | both b d => cases hkept
    · rintro ⟨he, hno⟩
      refine ⟨.left e, (mem_walk_left hbaseline hdestroys).mpr ⟨he, fun d hd hkey => hno ?_⟩, rfl⟩
      exact entity_id_eq hkey ▸ hd

/-- Creating entities that are not there adds them in order. -/
theorem apply_creates_of_not_mem (hcreates : Ascending creates)
    (hmem : ∀ c ∈ creates, ∀ b ∈ baseline, b.id ≠ c.id) :
    ∃ merged, Delta.applyCreates baseline creates = .ok merged ∧ Ascending merged
      ∧ ∀ e, e ∈ merged ↔ e ∈ baseline ∨ e ∈ creates := by
  have halign := aligned_walk hbaseline hcreates
  have hkeys : ∀ c ∈ creates, ∀ b ∈ baseline, entityKey b ≠ entityKey c := fun c hc b hb hkey =>
    hmem c hc b hb (entity_id_eq hkey)
  refine ⟨_, apply_creates_eq_ok.mpr ⟨?_, rfl⟩, ?_, fun e => ?_⟩
  · rintro step hstep b c rfl
    obtain ⟨hb, hc, hkey⟩ := (mem_walk_both hbaseline hcreates).mp hstep
    exact hkeys c hc b hb hkey
  · refine List.pairwise_filterMap.mpr (halign.ascending.imp fun {s t} hlt a ha b hb => ?_)
    cases s <;> cases t <;> simp_all [mergedStep, Step.key]
  · rw [List.mem_filterMap]
    constructor
    · rintro ⟨step, hstep, hmerged⟩
      cases step with
      | left b =>
          cases hmerged
          exact .inl ((mem_walk_left hbaseline hcreates).mp hstep).1
      | right c =>
          cases hmerged
          exact .inr ((mem_walk_right hbaseline hcreates).mp hstep).1
      | both b c => cases hmerged
    · rintro (he | he)
      · exact ⟨.left e, (mem_walk_left hbaseline hcreates).mpr
          ⟨he, fun c hc hkey => hkeys c hc e he hkey.symm⟩, rfl⟩
      · exact ⟨.right e, (mem_walk_right hbaseline hcreates).mpr
          ⟨he, fun b hb hkey => hkeys e he b hb hkey⟩, rfl⟩

end Membership

/-! ## Updates -/

variable {entities : List EntitySnapshot} {updates : List DeltaUpdateEntity}

/-- An update changes the entity with its id and no other. -/
theorem apply_update_eq (hentities : Ascending entities) {update : DeltaUpdateEntity}
    {e e' : EntitySnapshot} (he : e ∈ entities) (hid : e.id = update.id)
    (happly : update.components.foldlM Delta.applyComponent e = .ok e') :
    Delta.applyUpdate entities update
      = .ok (entities.map fun a => if a.id = update.id then e' else a) := by
  obtain ⟨i, hi⟩ := List.getElem?_of_mem he
  have hfound : binarySearchBy entityKey entities update.id.raw = some i :=
    (binary_search_by_eq_some hentities).mpr ⟨e, hi, congrArg EntityId.raw hid⟩
  rw [Delta.applyUpdate, hfound]
  simp only [index_of_some hi, pure_bind, happly, ok_bind]
  rw [store_of_lt (List.getElem?_eq_some_iff.mp hi).1,
    set_eq_map_of_key (hentities.imp Std.ne_of_lt) hi]
  have hkey (a : EntitySnapshot) : a.id.raw = e.id.raw ↔ a.id = update.id := by
    rw [← hid]
    exact ⟨entity_id_eq, fun h => congrArg EntityId.raw h⟩
  simp only [hkey]
  rfl

/-- Updates of different entities that are there change each of them and no other. -/
theorem apply_updates_eq (hentities : Ascending entities)
    (hupdates : updates.Pairwise fun a b => a.id ≠ b.id) (f : EntitySnapshot → EntitySnapshot)
    (hf : ∀ e, (f e).id = e.id)
    (hmem : ∀ u ∈ updates, ∃ e ∈ entities, e.id = u.id)
    (happly : ∀ u ∈ updates, ∀ e ∈ entities, e.id = u.id →
      u.components.foldlM Delta.applyComponent e = .ok (f e)) :
    Delta.applyUpdates entities updates
      = .ok (entities.map fun e => if e.id ∈ updates.map DeltaUpdateEntity.id then f e else e) := by
  refine foldlM_replace_eq EntitySnapshot.id DeltaUpdateEntity.id hf hupdates
    fun u hu current hids hfresh => ?_
  have hcurrent := ascending_of_ids_eq hentities hids
  obtain ⟨e, he, hid⟩ : ∃ e ∈ current, e.id = u.id := by
    obtain ⟨e, he, hid⟩ := hmem u hu
    have hin : u.id ∈ current.map EntitySnapshot.id := by
      rw [hids, ← hid]
      exact List.mem_map_of_mem he
    exact List.mem_map.mp hin
  rw [apply_update_eq hcurrent he hid (happly u hu e (hfresh e he hid) hid)]
  refine congrArg Except.ok (List.map_congr_left fun a ha => ?_)
  by_cases hau : a.id = u.id
  · rw [if_pos hau, if_pos hau,
      eq_of_key_eq hcurrent ha he (congrArg EntityId.raw (hau.trans hid.symm))]
  · rw [if_neg hau, if_neg hau]

/-! ## Whole deltas -/

/-- The three passes that apply a delta. -/
def applyChanges (baseline : List EntitySnapshot) (destroys : List EntityId)
    (creates : List EntitySnapshot) (updates : List DeltaUpdateEntity) :
    Outcome CodecError (List EntitySnapshot) := do
  let remaining ← Delta.applyDestroys baseline destroys
  let remaining ← Delta.applyCreates remaining creates
  Delta.applyUpdates remaining updates

/-! ## Faults -/

/-- The faults of a delta that names an entity which is not there, or creates one which is. -/
def MisplacedEntity : Fault CodecError → Prop
  | .err (.entityNotFound _) => True
  | .err (.entityAlreadyExists _) => True
  | _ => False

theorem apply_component_ensures (entity : EntitySnapshot) (update : DeltaUpdateComponent) :
    Ensures (Delta.applyComponent entity update) (fun e => e.id = entity.id)
      fun e => ¬ MisplacedEntity e := by
  rw [Delta.applyComponent]
  split
  · exact .fail id
  · refine .bind (.index id fun _ _ => trivial) fun component _ => ?_
    refine .bind (q := fun _ => True) ?_ fun fields _ => ?_
    · refine .foldlM trivial fun _ _ fields _ => .check (fun _ => id) fun _ => ?_
      exact .store id fun _ => trivial
    · exact .bind (q := fun _ => True) (.store id fun _ => trivial) fun _ _ => .pure rfl

/-- Updates of entities that are there do not miss one. -/
theorem apply_updates_ensures (hentities : Ascending entities)
    (hmem : ∀ u ∈ updates, ∃ e ∈ entities, e.id = u.id) :
    Ensures (Delta.applyUpdates entities updates)
      (fun result => result.map EntitySnapshot.id = entities.map EntitySnapshot.id)
      fun e => ¬ MisplacedEntity e := by
  refine .foldlM rfl fun u hu current hids => ?_
  have hcurrent := ascending_of_ids_eq hentities hids
  obtain ⟨e, he, hid⟩ := hmem u hu
  obtain ⟨e', he', hid'⟩ : ∃ e' ∈ current, e'.id = u.id := by
    have hin : u.id ∈ current.map EntitySnapshot.id := by
      rw [hids, ← hid]
      exact List.mem_map_of_mem he
    exact List.mem_map.mp hin
  obtain ⟨i, hi⟩ := List.getElem?_of_mem he'
  have hfound : binarySearchBy entityKey current u.id.raw = some i :=
    (binary_search_by_eq_some hcurrent).mpr ⟨e', hi, congrArg EntityId.raw hid'⟩
  rw [Delta.applyUpdate, hfound]
  simp only [index_of_some hi, pure_bind]
  refine .bind (q := fun a => a.id = e'.id) ?_ fun a ha => .store id fun hlt => ?_
  · exact .foldlM rfl fun c _ a ha => (apply_component_ensures a c).imp fun b hb => hb.trans ha
  · rw [List.map_set, ha, ← hids]
    refine List.ext_getElem? fun j => ?_
    rw [List.getElem?_set, List.getElem?_map]
    by_cases hij : i = j
    · subst hij
      rw [if_pos rfl, hi]
      simp [hlt]
    · rw [if_neg hij]

end Sdec
