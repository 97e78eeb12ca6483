import Sdec.Codec.DeltaDecode
import Sdec.Codec.DeltaEncode
import Sdec.Format.Component
import Sdec.Format.Section
import Sdec.Sorted.Ascending

/-!
# The format of created and destroyed entities

The entries of the create and destroy sections: an id at a byte boundary, and for a created entity
its components. The encoders of `snapshot.rs` and `delta.rs` write the same layout, and both
decoders return the entities of a layout whose ids ascend strictly.
-/

namespace Sdec

open Rust Bits Bitstream Codec Wire Sorted

variable {build : Build} {schema : Schema} {limits : CodecLimits} {pos : Nat}

/-! ## Ascending ids -/

theorem ensure_after_eq_ok {prev : Option UInt32} {id : UInt32} {u : Unit} :
    ensureAfter prev id = .ok u ↔ ∀ p, prev = some p → p < id := by
  cases prev with
  | none => exact ⟨fun _ p hp => (nomatch hp), fun _ => rfl⟩
  | some p =>
      rw [ensureAfter]
      by_cases h : id ≤ p
      · rw [if_pos h]
        exact ⟨fun h => (nomatch h), fun hall => absurd h (UInt32.not_le.mpr (hall p rfl))⟩
      · rw [if_neg h]
        exact ⟨fun _ q hq => Option.some.inj hq ▸ UInt32.not_le.mp h, fun _ => rfl⟩

theorem ids_ascend_cons {prev : Option UInt32} {id : UInt32} {ids : List UInt32} :
    AscendFrom (· < ·) prev (id :: ids)
      ↔ (∀ p, prev = some p → p < id) ∧ AscendFrom (· < ·) (some id) ids :=
  ascend_from_cons fun _ _ _ => UInt32.lt_trans

theorem ensure_sorted_eq_ok {prev : Option UInt32} {ids : List UInt32} {u : Unit} :
    ensureSorted prev ids = .ok u ↔ AscendFrom (· < ·) prev ids := by
  induction ids generalizing prev with
  | nil =>
      exact ⟨fun _ => ascend_from_nil, fun _ => rfl⟩
  | cons id ids ih =>
      rw [ensureSorted, bind_eq_ok, ids_ascend_cons]
      simp only [ensure_after_eq_ok, ih, exists_const]

/-- The entries that `readAscending` reads, each behind its id at a byte boundary. -/
def keyedLayout {β : Type} (id : β → UInt32) (layout : β → Layout) (entries : List β) : Layout :=
  entries.flatMap fun x => .align :: (bytes (leBytes 4 (id x).toNat) ++ layout x)

theorem length_keyed_le {β : Type} {id : β → UInt32} {layout : β → Layout} {entries : List β}
    {count : Nat} {body : List UInt8}
    (hbody : ofBytes body = render 0 (countedLayout count (keyedLayout id layout entries))) :
    entries.length ≤ body.length := by
  refine length_entries_le (fun x _ pos => ?_) hbody
  rw [stop_cons, stop_append, stop_bytes, length_leBytes]
  have halign := le_stop pos [.align]
  have hentry := le_stop (stop pos [.align] + 8 * 4) (layout x)
  omega

theorem reads_read_ascending {α β : Type} {readEntry : UInt32 → Call CodecError BitReader α}
    {id : β → UInt32} {layout : β → Layout} {value : β → α} {ok : β → Prop} {entries : List β}
    {prev : Option UInt32}
    (hread : ∀ x ∈ entries, ∀ pos, Reads pos (readEntry (id x)) (ok x) (layout x) (value x))
    (hascend : AscendFrom (· < ·) prev (entries.map id)) :
    Reads pos (readAscending readEntry entries.length prev) (∀ x ∈ entries, ok x)
      (keyedLayout id layout entries) (entries.map value) := by
  induction entries generalizing pos prev with
  | nil => exact (Reads.pure []).congr (by simp)
  | cons x entries ih =>
      rw [List.map_cons, ids_ascend_cons] at hascend
      have haligned : stop pos [.align] % 8 = 0 := by rw [stop_align, add_padding_mod]
      have hafter : ensureAfter prev (id x) = .ok () := ensure_after_eq_ok.mpr hascend.1
      rw [List.length_cons, readAscending, keyedLayout, List.flatMap_cons, List.cons_append,
        List.append_assoc, List.map_cons, List.forall_mem_cons]
      show Reads pos _ _ ([.align] ++ _) _
      refine parses_align_to_byte.map_err.bind_reads ?_
      refine (parses_read_u32_aligned haligned (id x)).map_err.bind_reads ?_
      refine Reads.lift_ok hafter ?_
      exact (hread x List.mem_cons_self _).bind fun _ =>
        (ih (fun y hy => hread y (List.mem_cons_of_mem _ hy)) hascend.2).bind_pure

/-! ## Destroyed entities -/

/-- The layout of the ids of a destroy section. -/
def destroyLayout (destroys : List EntityId) : Layout :=
  keyedLayout EntityId.raw (fun _ => []) destroys

/-- The id in front of an entry. -/
theorem writes_write_id (id : UInt32) :
    Writes (stop pos [.align]) (stream (BitWriter.writeU32Aligned id)) (fun _ => True)
      (bytes (leBytes 4 id.toNat)) :=
  (emits_write_u32_aligned (by rw [stop_align, add_padding_mod]) id).map_err.writes_true

theorem writes_encode_destroy_body (destroys : List EntityId) :
    Writes pos (Delta.encodeDestroyBodyFromList destroys limits)
      (fun _ => destroys.length ≤ limits.maxEntitiesDestroy)
      (countedLayout destroys.length (destroyLayout destroys)) := by
  unfold Delta.encodeDestroyBodyFromList
  refine Writes.check fun hlimit => ?_
  refine writes_counted fun pos => ?_
  refine (?_ : Writes pos _ (fun _ => True) _).bind fun _ _ =>
    writes_align.mono fun _ _ => Nat.le_of_not_lt hlimit
  refine (Writes.forM (p := fun _ => True) fun id _ pos => ?_).mono fun _ _ => trivial
  rw [List.append_nil]
  exact writes_align.cons fun _ _ => writes_write_id id.raw

/-- What the decoder makes of a destroy section. -/
theorem decode_destroy_section_eq_ok {destroys ids : List EntityId} {body : List UInt8}
    (hascend : AscendFrom (· < ·) none (destroys.map EntityId.raw))
    (hbody : ofBytes body = render 0 (countedLayout destroys.length (destroyLayout destroys)))
    (hlong : body.length < 2 ^ 32) (hcount : destroys.length < 2 ^ 32) :
    Delta.decodeDestroySection body limits = .ok ids ↔
      (body.length ≤ limits.maxSectionBytes ∧ destroys.length ≤ limits.maxEntitiesDestroy)
        ∧ destroys = ids := by
  have hread (pos : Nat) :
      Reads pos (readAscending (fun id => return EntityId.mk id) destroys.length none)
        (∀ id ∈ destroys, True) (destroyLayout destroys) (destroys.map fun id => id) :=
    reads_read_ascending (fun id _ _ => Reads.pure (EntityId.mk id.raw)) hascend
  rw [List.map_id'] at hread
  exact (read_section_eq_ok hbody (bits_le_usize_max hlong) hcount hread).trans (by simp)

/-! ## Created entities -/

/-- The components of an entity whose values an encoder can have written. -/
def EntitySnapshot.Encodes (build : Build) (schema : Schema) (limits : CodecLimits)
    (entity : EntitySnapshot) : Prop :=
  ∀ d ∈ schema.components, ∀ c, findComponent entity d.id = some c → d.Encodes build limits c.fields

/-- The entities on whose values the arithmetic of the reader does not panic. -/
def EntitySnapshot.Readable (build : Build) (schema : Schema) (entity : EntitySnapshot) : Prop :=
  ∀ d ∈ schema.components, ∀ c, findComponent entity d.id = some c → d.Readable build c.fields

/-- The layout of the entities of a create section. -/
def createLayout (schema : Schema) (creates : List EntitySnapshot) : Layout :=
  keyedLayout (fun entity => entity.id.raw)
    (fun entity => componentsLayout schema (denseContent entity)) creates

theorem writes_write_component_mask (entity : EntitySnapshot) :
    Writes pos (writeComponentMask schema entity) (fun _ => True)
      (flags (schema.components.map fun component => (denseContent entity component).isSome)) := by
  simp only [denseContent, Option.isSome_map]
  exact writes_mask _ _

theorem writes_write_full_component (component : ComponentDef) (snapshot : ComponentSnapshot) :
    Writes pos (Delta.writeFullComponent build component snapshot limits)
      (fun _ => component.Encodes build limits snapshot.fields)
      (denseLayout component snapshot.fields) := by
  unfold Delta.writeFullComponent
  refine Writes.check fun hlength => ?_
  refine Writes.check fun hlimit => ?_
  have hlength : snapshot.fields.length = component.fields.length := not_not.mp hlength
  exact (writes_write_all_fields component snapshot).mono fun _ hvalues =>
    ⟨hlength, hlength ▸ Nat.le_of_not_lt hlimit, hvalues⟩

/-- The loop of both encoders over the components of an entity. -/
theorem writes_write_components {entity : EntitySnapshot}
    {write : ComponentDef → ComponentSnapshot → Call CodecError BitWriter Unit}
    (hwrite : ∀ component snapshot pos, Writes pos (write component snapshot)
      (fun _ => component.Encodes build limits snapshot.fields)
      (denseLayout component snapshot.fields)) :
    Writes pos (schema.components.forM fun component =>
        match findComponent entity component.id with
        | some snapshot => write component snapshot
        | none => return)
      (fun _ => entity.Encodes build schema limits)
      (schema.components.flatMap fun component => (denseContent entity component).getD []) := by
  refine Writes.forM fun component _ pos => ?_
  rw [denseContent]
  cases findComponent entity component.id with
  | none => exact Writes.pure fun c hc => nomatch hc
  | some snapshot =>
      exact (hwrite component snapshot pos).mono fun _ h c hc => Option.some.inj hc ▸ h

theorem writes_write_create_entity (entity : EntitySnapshot) :
    Writes pos (Delta.writeCreateEntity build schema entity limits)
      (fun _ => entity.Encodes build schema limits)
      (.align :: (bytes (leBytes 4 entity.id.raw.toNat)
        ++ componentsLayout schema (denseContent entity))) := by
  unfold Delta.writeCreateEntity
  refine writes_align.cons fun _ _ => ?_
  refine (writes_write_id entity.id.raw).bind fun _ _ => ?_
  refine Writes.lift fun _ _ => ?_
  exact (writes_write_component_mask entity).bind fun _ _ =>
    writes_write_components fun component snapshot _ =>
      writes_write_full_component component snapshot

theorem writes_encode_create_body (creates : List EntitySnapshot) :
    Writes pos (Delta.encodeCreateBodyFromList build schema creates limits)
      (fun _ => creates.length ≤ limits.maxEntitiesCreate
        ∧ ∀ entity ∈ creates, entity.Encodes build schema limits)
      (countedLayout creates.length (createLayout schema creates)) := by
  unfold Delta.encodeCreateBodyFromList
  refine Writes.check fun hlimit => ?_
  refine writes_counted fun pos => ?_
  refine (Writes.forM fun entity _ pos => writes_write_create_entity entity).bind fun _ h => ?_
  exact writes_align.mono fun _ _ => ⟨Nat.le_of_not_lt hlimit, h⟩

/-- The encoder of full snapshots checks more, and writes the same. -/
theorem writes_write_entities (entities : List EntitySnapshot) (prev : Option UInt32) :
    Writes pos (Full.writeEntities build schema limits prev entities)
      (fun _ => ∀ entity ∈ entities, entity.Encodes build schema limits)
      (createLayout schema entities) := by
  induction entities generalizing pos prev with
  | nil => exact Writes.pure (by simp)
  | cons entity rest ih =>
      rw [Full.writeEntities, createLayout, keyedLayout, List.flatMap_cons, List.cons_append,
        List.append_assoc, componentsLayout, List.append_assoc]
      refine Writes.lift fun _ _ => ?_
      refine writes_align.cons fun _ _ => ?_
      refine (writes_write_id entity.id.raw).bind fun _ _ => ?_
      refine Writes.check fun _ => ?_
      refine Writes.lift fun _ _ => ?_
      refine (writes_write_component_mask entity).bind fun _ _ => ?_
      refine (writes_write_components fun component snapshot _ =>
        writes_write_component_fields component snapshot).bind fun _ hentity => ?_
      exact (ih (some entity.id.raw)).mono fun _ hrest => List.forall_mem_cons.mpr ⟨hentity, hrest⟩

theorem writes_encode_full_body (entities : List EntitySnapshot) :
    Writes pos (Full.encodeCreateBody build schema entities limits)
      (fun _ => schema.components.length ≤ limits.maxComponentsPerEntity
        ∧ ∀ entity ∈ entities, entity.Encodes build schema limits)
      (countedLayout entities.length (createLayout schema entities)) := by
  unfold Full.encodeCreateBody
  refine Writes.check fun hlimit => ?_
  refine writes_counted fun pos => ?_
  refine (writes_write_entities entities none).bind fun _ h => ?_
  exact writes_align.mono fun _ _ => ⟨Nat.le_of_not_lt hlimit, h⟩

/-- Reading the components of an entity back. -/
theorem reads_read_dense_components (hschema : schema.Valid) {entity : EntitySnapshot}
    (hshaped : entity.Shaped schema) (hencodes : entity.Encodes build schema limits) :
    Reads pos (readComponents (fun component => do
        let fields ← decodeComponentFields build component limits
        return ComponentSnapshot.mk component.id fields)
        (schema.components.map fun component => (denseContent entity component).isSome) 0
        schema.components)
      (entity.Readable build schema)
      (schema.components.flatMap fun component => (denseContent entity component).getD [])
      entity.components := by
  have h := @reads_read_components pos _ (fun component => do
    let fields ← decodeComponentFields build component limits
    return ComponentSnapshot.mk component.id fields)
    (fun component => (findComponent entity component.id).map
      fun snapshot => (denseLayout component snapshot.fields, snapshot))
    (fun component => ∀ c, findComponent entity component.id = some c →
      component.Readable build c.fields)
    (schema.components.map fun component => (denseContent entity component).isSome) 0
    schema.components
    (fun component hcomponent items snapshot hcontent pos => ?_) (by simp [denseContent])
  · simp only [Option.map_map, Function.comp_def, Option.map_id', hshaped.filterMap_find hschema,
      Option.isSome_map] at h
    refine h.congr (forall₂_congr fun component _ => ⟨fun h c hc => h ?_ c hc, fun h _ => h⟩)
    rw [hc]
    rfl
  · obtain ⟨found, hfound, hpair⟩ := Option.map_eq_some_iff.mp hcontent
    cases hpair
    have hencode := hencodes component hcomponent snapshot hfound
    have hvalues : List.Forall₂ (fun field value => field.codec.Contains value) component.fields
        snapshot.fields :=
      List.forall₂_iff_zip.mpr ⟨hencode.length.symm, fun h => (hencode.values _ h).1⟩
    have hid := (find_component_eq_some hfound).2
    have hread : Reads pos (decodeComponentFields build component limits) _ _ snapshot.fields :=
      reads_decode_component_fields (hschema.components component hcomponent) hencode.limit hvalues
    have hsnapshot : ComponentSnapshot.mk component.id snapshot.fields = snapshot := by rw [← hid]
    have hread : Reads pos (do
        let fields ← decodeComponentFields build component limits
        return ComponentSnapshot.mk component.id fields) _ _ ⟨component.id, snapshot.fields⟩ :=
      hread.bind_pure
    rw [hsnapshot] at hread
    refine hread.congr ⟨fun h c hc => ?_, fun h => h snapshot hfound⟩
    exact Option.some.inj (hfound.symm.trans hc) ▸ h

/-- A component mask, as both decoders of entities read it. -/
theorem parses_read_component_mask {content : ComponentDef → Option Layout} :
    Parses pos (readMask schema.components.length .componentMask)
      (flags (schema.components.map fun component => (content component).isSome))
      (schema.components.map fun component => (content component).isSome) := by
  have h : Parses pos _ _ _ := parses_read_mask .componentMask
    (schema.components.map fun component => (content component).isSome)
  rwa [List.length_map] at h

/-- An entity whose components are of the schema passes the check for unknown ones. -/
theorem ensure_known_of_mem {entity : EntitySnapshot}
    (h : ∀ c ∈ entity.components, ∃ d ∈ schema.components, c.id = d.id) :
    ensureKnownComponents schema entity = .ok () := by
  rw [ensureKnownComponents, forM_eq_ok]
  intro c hc
  obtain ⟨d, hd, hid⟩ := h c hc
  have hall : ¬ (schema.components.all fun d => d.id ≠ c.id) := by
    rw [List.all_eq_true]
    exact fun h => absurd hid.symm (by simpa using h d hd)
  rw [if_neg hall]
  rfl

/-- The components of a shaped entity are known. -/
theorem EntitySnapshot.Shaped.known {entity : EntitySnapshot} (h : entity.Shaped schema) :
    ensureKnownComponents schema entity = .ok () :=
  ensure_known_of_mem fun _ hc => exists_of_sublistForall₂ h hc

/-- The loop over the components returns components of the definitions it goes over. -/
theorem read_components_known
    {readFields : ComponentDef → Call CodecError BitReader (List FieldValue)} {mask : List Bool}
    {idx : Nat} {definitions : List ComponentDef} {reader reader' : BitReader}
    {components : List ComponentSnapshot}
    (h : readComponents (fun component => do
      let fields ← readFields component
      return ComponentSnapshot.mk component.id fields) mask idx definitions reader
        = .ok components reader') :
    ∀ c ∈ components, ∃ d ∈ definitions, c.id = d.id := by
  induction definitions generalizing idx reader components reader' with
  | nil =>
      cases h
      exact fun c hc => nomatch hc
  | cons definition definitions ih =>
      have hrest {c : ComponentSnapshot} (h : ∃ d ∈ definitions, c.id = d.id) :
          ∃ d ∈ definition :: definitions, c.id = d.id :=
        have ⟨d, hd, hid⟩ := h
        ⟨d, List.mem_cons_of_mem _ hd, hid⟩
      unfold readComponents at h
      cases hbit : mask[idx]? with
      | none =>
          simp only [index, hbit, bind_apply, fault_apply] at h
          cases h
      | some bit =>
          rw [index_of_some hbit, pure_bind] at h
          cases bit with
          | false =>
              rw [if_neg Bool.false_ne_true] at h
              exact fun c hc => hrest (ih h c hc)
          | true =>
              rw [if_pos rfl] at h
              simp only [bind_apply] at h
              cases hfields : readFields definition reader with
              | error e _ =>
                  rw [hfields] at h
                  cases h
              | ok fields next =>
                  rw [hfields] at h
                  simp only [pure_apply] at h
                  cases hmore : readComponents (fun component => do
                      let fields ← readFields component
                      return ComponentSnapshot.mk component.id fields) mask (idx + 1) definitions
                      next with
                  | error e _ =>
                      rw [hmore] at h
                      cases h
                  | ok more last =>
                      rw [hmore] at h
                      cases h
                      exact List.forall_mem_cons.mpr
                        ⟨⟨definition, List.mem_cons_self, rfl⟩, fun c hc => hrest (ih hmore c hc)⟩

/-- The check for unknown components that ends the reading of an entity in `delta.rs` never
fails. -/
theorem read_known_entity_eq (id : UInt32) :
    (do
      let componentMask ← readMask schema.components.length .componentMask
      let components ← readComponents (fun component => do
        let fields ← decodeFullComponent build component limits
        return ComponentSnapshot.mk component.id fields) componentMask 0 schema.components
      let entity : EntitySnapshot := ⟨⟨id⟩, components⟩
      ensureKnownComponents schema entity
      return entity : Call CodecError BitReader EntitySnapshot) = (do
      let componentMask ← readMask schema.components.length .componentMask
      let components ← readComponents (fun component => do
        let fields ← decodeComponentFields build component limits
        return ComponentSnapshot.mk component.id fields) componentMask 0 schema.components
      return EntitySnapshot.mk ⟨id⟩ components) := by
  funext reader
  simp only [bind_apply]
  cases readMask schema.components.length .componentMask reader with
  | error e _ => rfl
  | ok mask next =>
      simp only [decodeFullComponent]
      cases hcomponents : readComponents (fun component => do
          let fields ← decodeComponentFields build component limits
          return ComponentSnapshot.mk component.id fields) mask 0 schema.components next with
      | error e _ => rfl
      | ok components last =>
          have hknown : ensureKnownComponents schema ⟨⟨id⟩, components⟩ = .ok () :=
            ensure_known_of_mem (read_components_known hcomponents)
          simp only [hknown]
          rfl

section Creates

variable {creates : List EntitySnapshot} (hschema : schema.Valid)
  (hshaped : ∀ entity ∈ creates, entity.Shaped schema)
  (hencodes : ∀ entity ∈ creates, entity.Encodes build schema limits)
  (hascend : AscendFrom (· < ·) none (creates.map fun entity => entity.id.raw))

include hschema hshaped hencodes hascend

/-- What the decoder of `delta.rs` makes of a create section. -/
theorem decode_create_section_eq_ok {body : List UInt8} {entities : List EntitySnapshot}
    (hbody : ofBytes body = render 0 (countedLayout creates.length (createLayout schema creates)))
    (hlen : 8 * body.length ≤ usizeMax) (hcount : creates.length < 2 ^ 32) :
    Delta.decodeCreateSection build schema body limits = .ok entities ↔
      (body.length ≤ limits.maxSectionBytes ∧ creates.length ≤ limits.maxEntitiesCreate
        ∧ ∀ entity ∈ creates, entity.Readable build schema) ∧ creates = entities := by
  have hread (pos : Nat) : Reads pos (readAscending (fun id => do
      let componentMask ← readMask schema.components.length .componentMask
      let components ← readComponents (fun component => do
        let fields ← decodeFullComponent build component limits
        return ComponentSnapshot.mk component.id fields) componentMask 0 schema.components
      let entity : EntitySnapshot := ⟨⟨id⟩, components⟩
      ensureKnownComponents schema entity
      return entity) creates.length none) (∀ entity ∈ creates, entity.Readable build schema)
      (createLayout schema creates) (creates.map fun e => e) := by
    refine reads_read_ascending (fun entity hentity pos => ?_) hascend
    refine parses_read_component_mask.bind_reads ?_
    rw [← List.append_nil (List.flatMap _ _)]
    refine ((reads_read_dense_components hschema (hshaped entity hentity)
      (hencodes entity hentity)).bind fun _ => ?_).congr (and_iff_left trivial)
    exact Reads.lift_ok (hshaped entity hentity).known (Reads.pure entity)
  rw [List.map_id'] at hread
  exact read_section_eq_ok hbody hlen hcount hread

/-- What the decoder of `snapshot.rs` makes of it, which also checks the size of the schema. -/
theorem decode_full_create_section_eq_ok {body : List UInt8} {entities : List EntitySnapshot}
    (hbody : ofBytes body = render 0 (countedLayout creates.length (createLayout schema creates)))
    (hlong : body.length < 2 ^ 32) (hcount : creates.length < 2 ^ 32) :
    Full.decodeCreateSection build schema body limits = .ok entities ↔
      (body.length ≤ limits.maxSectionBytes ∧ creates.length ≤ limits.maxEntitiesCreate
        ∧ schema.components.length ≤ limits.maxComponentsPerEntity
        ∧ ∀ entity ∈ creates, entity.Readable build schema) ∧ creates = entities := by
  have hread (pos : Nat) : Reads pos (readAscending (fun entityId => do
      let componentMask ← readMask schema.components.length .componentMask
      let components ← readComponents (fun component => do
        let fields ← decodeComponentFields build component limits
        return ComponentSnapshot.mk component.id fields) componentMask 0 schema.components
      return EntitySnapshot.mk ⟨entityId⟩ components) creates.length none)
      (∀ entity ∈ creates, entity.Readable build schema)
      (createLayout schema creates) (creates.map fun e => e) := by
    refine reads_read_ascending (fun entity hentity pos => ?_) hascend
    refine parses_read_component_mask.bind_reads ?_
    exact (reads_read_dense_components hschema (hshaped entity hentity)
      (hencodes entity hentity)).bind_pure
  rw [List.map_id'] at hread
  exact (read_section_eq_ok hbody (bits_le_usize_max hlong) hcount fun pos =>
    Reads.check fun _ => hread pos).trans (by simp)

end Creates

end Sdec
