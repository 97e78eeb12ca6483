import Sdec.Bevy.World

/-!
# Change detection

What a Bevy world reports of the changes since its trackers were cleared: for each component of an
entity whether it was added, whether it was changed, and whether one was removed. Read `tracks_run`
first: after any changes the reports say how the components came to be what they are.
-/

namespace Sdec.Bevy

variable {κ V : Type}

/-- A world with what it reports of the components that were added, changed and removed since
`clear_trackers`. -/
structure TrackedWorld (κ V : Type) where
  world : World κ V
  added : Entity → κ → Bool
  changed : Entity → κ → Bool
  removed : Entity → κ → Bool

/-- A change that an application makes to its world. -/
inductive WorldChange (κ V : Type) where
  | spawn
  | despawn (e : Entity)
  | insert (e : Entity) (k : κ) (v : V)
  | mutate (e : Entity) (k : κ) (v : V)
  | remove (e : Entity) (k : κ)

namespace World

variable [DecidableEq κ] (world : World κ V) (e : Entity) (k : κ)

theorem fresh_remove : ∀ other : Entity, world.spawned ≤ other.index →
    Function.update world.entities e ((world.entities e).map fun components =>
      Function.update components k none) other = none :=
  world.fresh_update e fun hnone => by rw [hnone, Option.map_none]

/-- The world after a component of an entity is removed. -/
def remove : World κ V where
  spawned := world.spawned
  entities := Function.update world.entities e ((world.entities e).map fun components =>
    Function.update components k none)
  fresh := world.fresh_remove e k

variable {world e k} {other : Entity} {k' : κ}

omit [DecidableEq κ] in
theorem get_spawn_empty : world.spawnEmpty.get other k' = world.get other k' := by
  by_cases hother : other = world.nextEntity
  · rw [hother, get_of_entities spawn_empty_next, get, entities_next]
    rfl
  · rw [get, spawn_empty_of_ne hother, get]

omit [DecidableEq κ] in
theorem get_despawn :
    (world.despawn e).get other k' = if other = e then none else world.get other k' := by
  by_cases hother : other = e
  · rw [if_pos hother, hother, get]
    show (Function.update world.entities e none e).bind _ = none
    rw [Function.update_self]
    rfl
  · rw [if_neg hother, get, despawn_of_ne hother, get]

theorem get_remove :
    (world.remove e k).get other k'
      = if other = e ∧ k' = k then none else world.get other k' := by
  by_cases hother : other = e
  · show (Function.update world.entities e _ other).bind _ = _
    rw [hother, Function.update_self, get]
    cases world.entities e with
    | none => exact (ite_self _).symm
    | some components =>
        show Function.update components k none k' = _
        by_cases hk : k' = k
        · rw [hk, Function.update_self, if_pos ⟨rfl, rfl⟩]
        · rw [Function.update_of_ne hk, if_neg fun hboth => hk hboth.2]
          rfl
  · rw [if_neg fun hboth => hother hboth.1, get, get]
    show (Function.update world.entities e _ other).bind _ = _
    rw [Function.update_of_ne hother]

omit [DecidableEq κ] in
/-- A live entity was spawned. -/
theorem lt_spawned (h : world.entities e ≠ none) : e.index < world.spawned := by
  by_contra hle
  exact h (world.fresh e (Nat.le_of_not_lt hle))

omit [DecidableEq κ] in
/-- An entity with a component was spawned. -/
theorem lt_spawned_of_get (h : world.get e k ≠ none) : e.index < world.spawned :=
  lt_spawned (ne_none_of_get h)

end World

/-! ## Reports -/

/-- A report with the entry of one component set. -/
def mark [DecidableEq κ] (report : Entity → κ → Bool) (e : Entity) (k : κ) (flag : Bool) :
    Entity → κ → Bool :=
  Function.update report e (Function.update (report e) k flag)

namespace TrackedWorld

/-- `World::clear_trackers`. -/
def clearTrackers (world : World κ V) : TrackedWorld κ V :=
  ⟨world, fun _ _ => false, fun _ _ => false, fun _ _ => false⟩

variable [DecidableEq κ]

/-- The world after a change, which does nothing to an entity or a component that is not there. -/
def step (tracked : TrackedWorld κ V) : WorldChange κ V → TrackedWorld κ V
  | .spawn => { tracked with world := tracked.world.spawnEmpty }
  | .despawn e =>
      { world := tracked.world.despawn e
        added := Function.update tracked.added e fun _ => false
        changed := Function.update tracked.changed e fun _ => false
        removed := Function.update tracked.removed e fun k =>
          tracked.removed e k || (tracked.world.get e k).isSome }
  | .insert e k v =>
      if (tracked.world.entities e).isNone then tracked
      else
        { world := tracked.world.set e k v
          added := mark tracked.added e k (tracked.added e k || (tracked.world.get e k).isNone)
          changed := mark tracked.changed e k true
          removed := tracked.removed }
  | .mutate e k v =>
      if (tracked.world.get e k).isNone then tracked
      else { tracked with
        world := tracked.world.set e k v
        changed := mark tracked.changed e k true }
  | .remove e k =>
      if (tracked.world.get e k).isNone then tracked
      else
        { world := tracked.world.remove e k
          added := mark tracked.added e k false
          changed := mark tracked.changed e k false
          removed := mark tracked.removed e k true }

end TrackedWorld

theorem mark_eq [DecidableEq κ] (report : Entity → κ → Bool) (e : Entity) (k : κ) (flag : Bool)
    (e' : Entity) (k' : κ) :
    mark report e k flag e' k' = if e' = e ∧ k' = k then flag else report e' k' := by
  unfold mark
  by_cases he : e' = e
  · subst he
    rw [Function.update_self]
    by_cases hk : k' = k
    · subst hk
      rw [Function.update_self, if_pos ⟨rfl, rfl⟩]
    · rw [Function.update_of_ne hk, if_neg fun hboth => hk hboth.2]
  · rw [Function.update_of_ne he, if_neg fun hboth => he hboth.1]

/-! ## What the reports say -/

/-- What the reports on one component say, which was `before` and is `now`: a component that was not
added was there before, and was only written if it was changed; a component that was there before
and is gone or was added again was removed. -/
structure CellTracks (before now : Option V) (added changed removed : Bool) : Prop where
  kept : now ≠ none → added = false →
    removed = false ∧ before ≠ none ∧ (changed = false → now = before)
  lost : before ≠ none → now = none ∨ added = true → removed = true
  present : added = true ∨ changed = true → now ≠ none

section Cell

variable {before now : Option V} {added changed removed : Bool}

theorem CellTracks.refl (before : Option V) : CellTracks before before false false false where
  kept hnow _ := ⟨rfl, hnow, fun _ => rfl⟩
  lost hbefore h := by
    rcases h with hnone | hadded
    · exact absurd hnone hbefore
    · cases hadded
  present h := by
    rcases h with h | h <;> cases h

/-- The component is removed, if it is there. -/
theorem CellTracks.gone (h : CellTracks before now added changed removed) :
    CellTracks before none false false (removed || now.isSome) where
  kept hnow := absurd rfl hnow
  lost hbefore _ := by
    cases now with
    | none => rw [h.lost hbefore (.inl rfl), Bool.true_or]
    | some v => exact Bool.or_true _
  present h := by
    rcases h with h | h <;> cases h

/-- The component is inserted. -/
theorem CellTracks.put (h : CellTracks before now added changed removed) (v : V) :
    CellTracks before (some v) (added || now.isNone) true removed where
  kept _ hadded := by
    rw [Bool.or_eq_false_iff] at hadded
    have hnow : now ≠ none := fun hnone => by rw [hnone] at hadded; cases hadded.2
    obtain ⟨hremoved, hbefore, _⟩ := h.kept hnow hadded.1
    exact ⟨hremoved, hbefore, fun h => by cases h⟩
  lost hbefore hadded := by
    rcases hadded with hnone | hadded
    · cases hnone
    · rw [Bool.or_eq_true, Option.isNone_iff_eq_none] at hadded
      exact h.lost hbefore hadded.symm
  present _ := Option.some_ne_none v

/-- The component is written. -/
theorem CellTracks.write (h : CellTracks before now added changed removed) (hnow : now ≠ none)
    (v : V) : CellTracks before (some v) added true removed where
  kept _ hadded :=
    ⟨(h.kept hnow hadded).1, (h.kept hnow hadded).2.1, fun h => by cases h⟩
  lost hbefore hadded := by
    rcases hadded with hnone | hadded
    · cases hnone
    · exact h.lost hbefore (.inr hadded)
  present _ := Option.some_ne_none v

end Cell

/-- The reports say how the components came to be what they are since the world was `before`. -/
structure TrackedWorld.Tracks (tracked : TrackedWorld κ V) (before : World κ V) : Prop where
  cells : ∀ e k, CellTracks (before.get e k) (tracked.world.get e k) (tracked.added e k)
    (tracked.changed e k) (tracked.removed e k)
  spawned : ∀ e k, tracked.removed e k = true → e.index < tracked.world.spawned

theorem tracks_clear (world : World κ V) : (TrackedWorld.clearTrackers world).Tracks world where
  cells _ _ := CellTracks.refl _
  spawned _ _ h := by cases h

variable [DecidableEq κ] {before : World κ V} {tracked : TrackedWorld κ V}

namespace TrackedWorld

/-! ### One change -/

/-- A change that concerns one component of one entity. -/
theorem Tracks.of_cell (h : tracked.Tracks before) {tracked' : TrackedWorld κ V} {e : Entity}
    {k : κ} {now : Option V} {added changed removed : Bool}
    (hworld : ∀ e' k', tracked'.world.get e' k'
      = if e' = e ∧ k' = k then now else tracked.world.get e' k')
    (hadded : ∀ e' k', tracked'.added e' k'
      = if e' = e ∧ k' = k then added else tracked.added e' k')
    (hchanged : ∀ e' k', tracked'.changed e' k'
      = if e' = e ∧ k' = k then changed else tracked.changed e' k')
    (hremoved : ∀ e' k', tracked'.removed e' k'
      = if e' = e ∧ k' = k then removed else tracked.removed e' k')
    (hcell : CellTracks (before.get e k) now added changed removed)
    (hspawned : tracked'.world.spawned = tracked.world.spawned)
    (hthere : e.index < tracked.world.spawned) : tracked'.Tracks before := by
  refine ⟨fun e' k' => ?_, fun e' k' hreport => ?_⟩
  · rw [hworld, hadded, hchanged, hremoved]
    by_cases heq : e' = e ∧ k' = k
    · obtain ⟨rfl, rfl⟩ := heq
      rw [if_pos ⟨rfl, rfl⟩, if_pos ⟨rfl, rfl⟩, if_pos ⟨rfl, rfl⟩, if_pos ⟨rfl, rfl⟩]
      exact hcell
    · rw [if_neg heq, if_neg heq, if_neg heq, if_neg heq]
      exact h.cells e' k'
  · rw [hremoved] at hreport
    rw [hspawned]
    by_cases heq : e' = e ∧ k' = k
    · rw [heq.1]
      exact hthere
    · rw [if_neg heq] at hreport
      exact h.spawned e' k' hreport

/-- A report that stays as it is, in the form of a report with one entry set. -/
theorem unmarked (report : Entity → κ → Bool) (e : Entity) (k : κ) (e' : Entity) (k' : κ) :
    report e' k' = if e' = e ∧ k' = k then report e k else report e' k' := by
  split
  next heq => rw [heq.1, heq.2]
  next => rfl

theorem Tracks.spawn (h : tracked.Tracks before) : (tracked.step .spawn).Tracks before := by
  refine ⟨fun e k => ?_, fun e k hremoved => Nat.lt_succ_of_lt (h.spawned e k hremoved)⟩
  show CellTracks _ (tracked.world.spawnEmpty.get e k) _ _ _
  rw [World.get_spawn_empty]
  exact h.cells e k

theorem Tracks.despawn (h : tracked.Tracks before) (e : Entity) :
    (tracked.step (.despawn e)).Tracks before := by
  refine ⟨fun e' k' => ?_, fun e' k' hremoved => ?_⟩
  · show CellTracks _ ((tracked.world.despawn e).get e' k') _ _ _
    rw [World.get_despawn]
    dsimp only [TrackedWorld.step]
    by_cases he : e' = e
    · subst he
      rw [if_pos rfl, Function.update_self, Function.update_self, Function.update_self]
      -- every component of the entity is removed, and its other marks are gone
      exact (h.cells e' k').gone
    · rw [if_neg he, Function.update_of_ne he, Function.update_of_ne he,
        Function.update_of_ne he]
      exact h.cells e' k'
  · dsimp only [TrackedWorld.step] at hremoved
    by_cases he : e' = e
    · subst he
      rw [Function.update_self, Bool.or_eq_true] at hremoved
      rcases hremoved with hold | hnow
      · exact h.spawned e' k' hold
      · show e'.index < tracked.world.spawned
        exact World.lt_spawned_of_get (Option.isSome_iff_ne_none.mp hnow)
    · rw [Function.update_of_ne he] at hremoved
      exact h.spawned e' k' hremoved

theorem Tracks.insert (h : tracked.Tracks before) (e : Entity) (k : κ) (v : V) :
    (tracked.step (.insert e k v)).Tracks before := by
  unfold TrackedWorld.step
  -- a component is not inserted on an entity that is not there
  by_cases hlive : (tracked.world.entities e).isNone
  · simp only [if_pos hlive]
    exact h
  · simp only [if_neg hlive]
    have hlive : tracked.world.entities e ≠ none := fun hnone =>
      hlive (Option.isNone_iff_eq_none.mpr hnone)
    exact h.of_cell (fun _ _ => World.get_set hlive) (mark_eq _ e k _) (mark_eq _ e k _)
      (unmarked tracked.removed e k) ((h.cells e k).put v) rfl (World.lt_spawned hlive)

theorem Tracks.mutate (h : tracked.Tracks before) (e : Entity) (k : κ) (v : V) :
    (tracked.step (.mutate e k v)).Tracks before := by
  unfold TrackedWorld.step
  -- a component that is not there is not written
  by_cases hnone : (tracked.world.get e k).isNone
  · simp only [if_pos hnone]
    exact h
  · simp only [if_neg hnone]
    have hnow : tracked.world.get e k ≠ none := fun heq =>
      hnone (Option.isNone_iff_eq_none.mpr heq)
    exact h.of_cell (fun _ _ => World.get_set (World.ne_none_of_get hnow))
      (unmarked tracked.added e k) (mark_eq _ e k _) (unmarked tracked.removed e k)
      ((h.cells e k).write hnow v) rfl (World.lt_spawned_of_get hnow)

theorem Tracks.remove (h : tracked.Tracks before) (e : Entity) (k : κ) :
    (tracked.step (.remove e k)).Tracks before := by
  unfold TrackedWorld.step
  -- nor is it removed
  by_cases hnone : (tracked.world.get e k).isNone
  · simp only [if_pos hnone]
    exact h
  · simp only [if_neg hnone]
    have hnow : tracked.world.get e k ≠ none := fun heq =>
      hnone (Option.isNone_iff_eq_none.mpr heq)
    have hgone := (h.cells e k).gone
    rw [Option.isSome_iff_ne_none.mpr hnow, Bool.or_true] at hgone
    exact h.of_cell (fun _ _ => World.get_remove) (mark_eq _ e k _) (mark_eq _ e k _)
      (mark_eq _ e k _) hgone rfl (World.lt_spawned_of_get hnow)

/-- Any change. -/
theorem Tracks.step (h : tracked.Tracks before) (change : WorldChange κ V) :
    (tracked.step change).Tracks before := by
  cases change with
  | spawn => exact h.spawn
  | despawn e => exact h.despawn e
  | insert e k v => exact h.insert e k v
  | mutate e k v => exact h.mutate e k v
  | remove e k => exact h.remove e k

end TrackedWorld

/-- Any changes. -/
theorem tracks_run (world : World κ V) (changes : List (WorldChange κ V)) :
    (changes.foldl TrackedWorld.step (TrackedWorld.clearTrackers world)).Tracks world := by
  suffices hrun : ∀ tracked : TrackedWorld κ V, tracked.Tracks world →
      (changes.foldl TrackedWorld.step tracked).Tracks world from hrun _ (tracks_clear world)
  induction changes with
  | nil => exact fun _ h => h
  | cons change changes ih => exact fun tracked h => ih _ (h.step change)

end Sdec.Bevy
