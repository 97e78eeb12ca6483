import Sdec.Codec.Types
import Sdec.Rust.Outcome
import Sdec.Runs.Throughout
import Mathlib.Logic.Function.Basic

/-!
# The entity map of the Bevy adapter

`EntityMap`, after `sdec-bevy/src/mapping.rs`: two hash maps, between the entities of a world and
the ids of the wire, that are meant to be inverse to each other, and a counter for new ids. Read
`bijection_iff` first: the maps stay inverse exactly as long as no call is given an id or an entity
that already has another partner.
-/

namespace Sdec.Bevy

open Rust Runs

/-- `Entity` of `bevy_ecs`. A world numbers the entities that it spawns. -/
structure Entity where
  index : Nat
  deriving DecidableEq, Repr

/-- `u32::saturating_add` of one. -/
def saturatingSucc (n : UInt32) : UInt32 := if n = 0xFFFFFFFF then n else n + 1

/-- `EntityMap`. -/
structure EntityMap where
  nextId : UInt32
  toId : Entity → Option EntityId
  toEntity : EntityId → Option Entity

namespace EntityMap

/-- `EntityMap::new`. -/
def new : EntityMap := ⟨0, fun _ => none, fun _ => none⟩

/-- The next id of `entity_id`. -/
def freshId (map : EntityMap) : UInt32 := max (saturatingSucc map.nextId) 1

/-- `EntityMap::entity_id`. -/
def entityId (map : EntityMap) (entity : Entity) : EntityId × EntityMap :=
  match map.toId entity with
  | some id => (id, map)
  | none =>
      let next := map.freshId
      let id := EntityId.mk next
      (id, ⟨next, Function.update map.toId entity (some id),
        Function.update map.toEntity id (some entity)⟩)

/-- `EntityMap::entity_id_known`. -/
def entityIdKnown (map : EntityMap) (entity : Entity) : Option EntityId := map.toId entity

/-- `EntityMap::entity`. -/
def entity (map : EntityMap) (id : EntityId) : Option Entity := map.toEntity id

/-- `EntityMap::register`. -/
def register (map : EntityMap) (id : EntityId) (entity : Entity) : EntityMap where
  toId := Function.update map.toId entity (some id)
  toEntity := Function.update map.toEntity id (some entity)
  nextId := max map.nextId id.raw

/-- `EntityMap::unregister`. -/
def unregister (map : EntityMap) (id : EntityId) : EntityMap :=
  match map.toEntity id with
  | none => map
  | some entity => { map with
      toEntity := Function.update map.toEntity id none
      toId := Function.update map.toId entity none }

/-! ## Inverse maps -/

/-- The two maps are inverse partial functions. -/
def Inverse (map : EntityMap) : Prop :=
  ∀ entity id, map.toId entity = some id ↔ map.toEntity id = some entity

/-- No id is above the counter. -/
def Bounded (map : EntityMap) : Prop :=
  ∀ id entity, map.toEntity id = some entity → id.raw ≤ map.nextId

theorem inverse_new : new.Inverse := fun _ _ => iff_of_false (by simp [new]) (by simp [new])

theorem bounded_new : new.Bounded := by
  intro id entity h
  cases h

variable {map : EntityMap} {id : EntityId} {e : Entity}

/-- A pair can be put into inverse maps when neither side has another partner. -/
def Free (map : EntityMap) (id : EntityId) (e : Entity) : Prop :=
  (∀ other, map.toId e = some other → other = id) ∧
    ∀ other, map.toEntity id = some other → other = e

/-- Putting a pair into both maps keeps them inverse exactly when neither side has another
partner. -/
theorem inverse_insert_iff (h : map.Inverse) (next : UInt32) :
    (EntityMap.mk next (Function.update map.toId e (some id))
      (Function.update map.toEntity id (some e))).Inverse ↔ map.Free id e := by
  constructor
  · intro hinverse
    refine ⟨fun other hother => ?_, fun other hother => ?_⟩
    · by_contra hne
      have hstale := (hinverse e other).mpr
        ((Function.update_of_ne hne _ _).trans ((h e other).mp hother))
      dsimp only at hstale
      rw [Function.update_self] at hstale
      exact hne (Option.some.inj hstale).symm
    · by_contra hne
      have hstale := (hinverse other id).mp
        ((Function.update_of_ne hne _ _).trans ((h other id).mpr hother))
      dsimp only at hstale
      rw [Function.update_self] at hstale
      exact hne (Option.some.inj hstale).symm
  · intro hfree e' id'
    show Function.update map.toId e (some id) e' = some id'
      ↔ Function.update map.toEntity id (some e) id' = some e'
    by_cases he : e' = e
    · subst he
      rw [Function.update_self]
      by_cases hid : id' = id
      · subst hid
        rw [Function.update_self]
        exact iff_of_true rfl rfl
      · rw [Function.update_of_ne hid, ← h]
        exact iff_of_false (fun heq => hid (Option.some.inj heq).symm)
          fun hold => hid (hfree.1 id' hold)
    · rw [Function.update_of_ne he]
      by_cases hid : id' = id
      · subst hid
        rw [Function.update_self, h]
        exact iff_of_false (fun hold => he (hfree.2 e' hold))
          fun heq => he (Option.some.inj heq).symm
      · rw [Function.update_of_ne hid]
        exact h e' id'

theorem inverse_register_iff (h : map.Inverse) :
    (map.register id e).Inverse ↔ map.Free id e := inverse_insert_iff h _

theorem register_self : (map.register id e).toEntity id = some e := Function.update_self _ _ _

theorem register_of_ne {other : EntityId} (h : other ≠ id) :
    (map.register id e).toEntity other = map.toEntity other := Function.update_of_ne h _ _

theorem unregister_of_none (h : map.toEntity id = none) : map.unregister id = map := by
  rw [unregister, h]

theorem unregister_of_some (h : map.toEntity id = some e) :
    map.unregister id = ⟨map.nextId, Function.update map.toId e none,
      Function.update map.toEntity id none⟩ := by
  rw [unregister, h]

theorem inverse_unregister (h : map.Inverse) : (map.unregister id).Inverse := by
  cases hentity : map.toEntity id with
  | none => rwa [unregister_of_none hentity]
  | some e =>
      rw [unregister_of_some hentity]
      intro e' id'
      show Function.update map.toId e none e' = some id'
        ↔ Function.update map.toEntity id none id' = some e'
      have hid := (h e id).mpr hentity
      by_cases he : e' = e
      · subst he
        rw [Function.update_self]
        refine iff_of_false (fun heq => by cases heq) fun heq => ?_
        by_cases hsame : id' = id
        · subst hsame
          rw [Function.update_self] at heq
          cases heq
        · rw [Function.update_of_ne hsame, ← h, hid] at heq
          exact hsame (Option.some.inj heq).symm
      · rw [Function.update_of_ne he]
        by_cases hsame : id' = id
        · subst hsame
          rw [Function.update_self, h, hentity]
          exact iff_of_false (fun heq => he (Option.some.inj heq).symm) fun heq => by cases heq
        · rw [Function.update_of_ne hsame]
          exact h e' id'

/-! ## The counter -/

theorem bounded_insert {next : UInt32} (h : map.Bounded) (hnext : map.nextId ≤ next)
    (hid : id.raw ≤ next) :
    (EntityMap.mk next (Function.update map.toId e (some id))
      (Function.update map.toEntity id (some e))).Bounded := by
  intro id' e' hmapped
  by_cases hsame : id' = id
  · rw [hsame]
    exact hid
  · have hold : map.toEntity id' = some e' := (Function.update_of_ne hsame _ _).symm.trans hmapped
    exact UInt32.le_trans (h id' e' hold) hnext

theorem le_saturating_succ (n : UInt32) : n ≤ saturatingSucc n := by
  unfold saturatingSucc
  by_cases hmax : n = 0xFFFFFFFF
  · rw [if_pos hmax]
    exact UInt32.le_refl n
  · rw [if_neg hmax, UInt32.le_iff_toNat_le, UInt32.toNat_add, UInt32.toNat_one]
    have hne : n.toNat ≠ 0xFFFFFFFF := fun h => hmax (UInt32.toNat_inj.mp h)
    have := n.toNat_lt
    omega

theorem le_max (a b : UInt32) : a ≤ max a b ∧ b ≤ max a b := by
  show (a ≤ if a ≤ b then b else a) ∧ b ≤ if a ≤ b then b else a
  by_cases h : a ≤ b
  · rw [if_pos h]
    exact ⟨h, UInt32.le_refl b⟩
  · rw [if_neg h]
    refine ⟨UInt32.le_refl a, ?_⟩
    rw [UInt32.le_iff_toNat_le] at h ⊢
    omega

theorem le_fresh_id (map : EntityMap) : map.nextId ≤ map.freshId :=
  UInt32.le_trans (le_saturating_succ _) (le_max _ _).1

/-- The next id is new as long as the counter can grow. -/
theorem fresh_id_unmapped_iff (h : map.Bounded) :
    map.toEntity ⟨map.freshId⟩ = none
      ↔ map.nextId ≠ 0xFFFFFFFF ∨ map.toEntity ⟨0xFFFFFFFF⟩ = none := by
  by_cases hmax : map.nextId = 0xFFFFFFFF
  · have hfresh : map.freshId = 0xFFFFFFFF := by
      rw [freshId, hmax]
      decide
    rw [hfresh]
    exact ⟨.inr, fun hor => hor.resolve_left (not_not.mpr hmax)⟩
  · refine iff_of_true ?_ (.inl hmax)
    cases hmapped : map.toEntity ⟨map.freshId⟩ with
    | none => rfl
    | some e =>
        -- The counter is below the next id, and no id is above the counter.
        have hle : map.freshId ≤ map.nextId := h _ e hmapped
        have hge : saturatingSucc map.nextId ≤ map.freshId := (le_max _ _).1
        have hne : map.nextId.toNat ≠ 0xFFFFFFFF := fun heq => hmax (UInt32.toNat_inj.mp heq)
        rw [saturatingSucc, if_neg hmax, UInt32.le_iff_toNat_le, UInt32.toNat_add,
          UInt32.toNat_one] at hge
        rw [UInt32.le_iff_toNat_le] at hle
        have := map.nextId.toNat_lt
        omega

/-! ## Runs -/

/-- A call that changes the map. -/
inductive MapCall where
  | entityId (entity : Entity)
  | register (id : EntityId) (entity : Entity)
  | unregister (id : EntityId)
  deriving DecidableEq, Repr

/-- The map after a call. -/
def step (map : EntityMap) : MapCall → EntityMap
  | .entityId entity => (map.entityId entity).2
  | .register id entity => map.register id entity
  | .unregister id => map.unregister id

/-- After the call the maps are inverse, and an id that it made up was not mapped before. -/
def KeepsBijection (map : EntityMap) (call : MapCall) : Prop :=
  (map.step call).Inverse ∧ ∀ entity, call = .entityId entity → map.toId entity = none →
    map.toEntity (map.entityId entity).1 = none

/-- A registered pair has no other partner on either side, and where a new id is needed, the counter
is not used up, or its last id is free. -/
def CollisionFree (map : EntityMap) : MapCall → Prop
  | .entityId entity => map.toId entity = none →
      map.nextId ≠ 0xFFFFFFFF ∨ map.toEntity ⟨0xFFFFFFFF⟩ = none
  | .register id entity => map.Free id entity
  | .unregister _ => True

theorem entity_id_of_some (h : map.toId e = some id) : map.entityId e = (id, map) := by
  rw [entityId, h]

theorem entity_id_of_none (h : map.toId e = none) :
    map.entityId e = (⟨map.freshId⟩, ⟨map.freshId, Function.update map.toId e (some ⟨map.freshId⟩),
      Function.update map.toEntity ⟨map.freshId⟩ (some e)⟩) := by
  rw [entityId, h]

/-- One call: the bijection is kept exactly when the call is free of collisions. -/
theorem keeps_bijection_iff (hinverse : map.Inverse) (hbounded : map.Bounded) (call : MapCall) :
    map.KeepsBijection call ↔ map.CollisionFree call := by
  cases call with
  | entityId e =>
      cases hid : map.toId e with
      | some id =>
          have hstep : map.step (.entityId e) = map := by rw [step, entity_id_of_some hid]
          refine iff_of_true ⟨by rwa [hstep], fun e' heq hnone => ?_⟩ fun hnone => ?_
          · cases heq
            rw [hid] at hnone
            cases hnone
          · rw [hid] at hnone
            cases hnone
      | none =>
          have hfresh := fresh_id_unmapped_iff hbounded
          have hfree : map.Free ⟨map.freshId⟩ e ↔ map.toEntity ⟨map.freshId⟩ = none := by
            constructor
            · intro hfree
              cases hmapped : map.toEntity ⟨map.freshId⟩ with
              | none => rfl
              | some other =>
                  have hold := (hinverse other _).mpr hmapped
                  rw [hfree.2 other hmapped, hid] at hold
                  cases hold
            · intro hunmapped
              refine ⟨fun other hother => ?_, fun other hother => ?_⟩
              · rw [hid] at hother
                cases hother
              · rw [hunmapped] at hother
                cases hother
          have hinsert := @inverse_insert_iff map ⟨map.freshId⟩ e hinverse map.freshId
          show ((map.entityId e).2.Inverse ∧ _) ↔ (map.toId e = none → _)
          rw [entity_id_of_none hid, hinsert, hfree, ← hfresh]
          constructor
          · exact fun h _ => h.1
          · intro h
            refine ⟨h hid, fun e' heq _ => ?_⟩
            cases heq
            rw [entity_id_of_none hid]
            exact h hid
  | register id e =>
      refine ⟨fun h => (inverse_register_iff hinverse).mp h.1,
        fun h => ⟨(inverse_register_iff hinverse).mpr h, fun e' heq => ?_⟩⟩
      cases heq
  | unregister id =>
      refine iff_of_true ⟨inverse_unregister hinverse, fun e' heq => ?_⟩ trivial
      cases heq

theorem bounded_step (h : map.Bounded) (call : MapCall) : (map.step call).Bounded := by
  cases call with
  | entityId e =>
      cases hid : map.toId e with
      | some id =>
          rw [step, entity_id_of_some hid]
          exact h
      | none =>
          rw [step, entity_id_of_none hid]
          exact bounded_insert h (le_fresh_id map) (UInt32.le_refl _)
  | register id e => exact bounded_insert h (le_max _ _).1 (le_max _ _).2
  | unregister id =>
      rw [step]
      cases hentity : map.toEntity id with
      | none => rwa [unregister_of_none hentity]
      | some e =>
          rw [unregister_of_some hentity]
          intro id' e' hmapped
          dsimp only at hmapped
          by_cases hsame : id' = id
          · rw [hsame, Function.update_self] at hmapped
            cases hmapped
          · rw [Function.update_of_ne hsame] at hmapped
            exact h id' e' hmapped

/-- The two maps stay inverse through a run, and every new id is one that is not mapped, exactly
when no call of the run collides with what is mapped before it. -/
theorem bijection_iff (calls : List MapCall) :
    Throughout step KeepsBijection new calls ↔ Throughout step CollisionFree new calls :=
  throughout_iff (fun map => map.Inverse ∧ map.Bounded) ⟨inverse_new, bounded_new⟩
    (fun _ call h => keeps_bijection_iff h.1 h.2 call)
    fun _ call h hkeeps => ⟨hkeeps.1, bounded_step h.2 call⟩

/-- One id for two entities: the first one keeps an id that is no longer its own. -/
theorem register_breaks_bijection :
    ¬ Throughout step KeepsBijection new [.register ⟨7⟩ ⟨1⟩, .register ⟨7⟩ ⟨2⟩] := by
  intro h
  have hinverse := h.2.1.1
  have hstale := (hinverse ⟨1⟩ ⟨7⟩).mp (by decide)
  exact absurd hstale (by decide)

end EntityMap

end Sdec.Bevy
