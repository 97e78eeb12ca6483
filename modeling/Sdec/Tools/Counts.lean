import Sdec.Rust.Focus
import Sdec.Tools.Inspect

/-!
# What an inspection says of a delta

The numbers that `inspect_packet` finds are those of the delta that the packet decodes to. Read
`inspect_delta_eq_ok` first. The counts of the sections are read from their first bytes, without the
rest of the section, and agree with the decoded lists only because the decoder runs as well and
accepts the packet.
-/

namespace Sdec.Tools

open Rust Bitstream Codec Wire Sorted

variable {build : Build} {schema : Schema} {wireLimits : Wire.Limits} {limits : CodecLimits}
variable {updates : List DeltaUpdateEntity} {summary : UpdateSummary}

/-! ## Summaries -/

/-- The component and the number of fields of every update of a component. -/
def componentFields (updates : List DeltaUpdateEntity) : List (UInt16 × Nat) :=
  updates.flatMap fun entity =>
    entity.components.map fun component => (component.id.get, component.fields.length)

/-- The totals of some updates of components. -/
def UpdateTotals.of (entries : List (UInt16 × Nat)) : UpdateTotals :=
  ⟨entries.length, (entries.map Prod.snd).sum, tallyOf entries⟩

/-- The inner loop, on totals whose number of components has been added before. -/
theorem foldl_total_component (components : List DeltaUpdateComponent) (n : Nat)
    (entries : List (UInt16 × Nat)) :
    components.foldl totalComponent ⟨n, (entries.map Prod.snd).sum, tallyOf entries⟩
      = { UpdateTotals.of (entries ++ components.map fun component =>
            (component.id.get, component.fields.length)) with changedComponents := n } := by
  induction components generalizing entries with
  | nil =>
      rw [List.map_nil, List.append_nil]
      rfl
  | cons component components ih =>
      have hstep : totalComponent ⟨n, (entries.map Prod.snd).sum, tallyOf entries⟩ component
          = ⟨n, ((entries ++ [(component.id.get, component.fields.length)]).map Prod.snd).sum,
            tallyOf (entries ++ [(component.id.get, component.fields.length)])⟩ := by
        rw [tally_of_append, List.map_append, List.sum_append]
        rfl
      rw [List.foldl_cons, hstep, ih, List.map_cons, List.append_assoc, List.singleton_append]

theorem total_entity_of (entries : List (UInt16 × Nat)) (entity : DeltaUpdateEntity) :
    totalEntity (.of entries) entity = .of (entries ++ componentFields [entity]) := by
  have hentity : componentFields [entity]
      = entity.components.map fun component => (component.id.get, component.fields.length) :=
    List.flatMap_singleton _ _
  unfold totalEntity
  rw [UpdateTotals.of, foldl_total_component, ← hentity]
  rw [UpdateTotals.of, List.length_append, hentity, List.length_map]

theorem foldl_total_entity (updates : List DeltaUpdateEntity) (entries : List (UInt16 × Nat)) :
    updates.foldl totalEntity (.of entries) = .of (entries ++ componentFields updates) := by
  induction updates generalizing entries with
  | nil =>
      rw [componentFields, List.flatMap_nil, List.append_nil]
      rfl
  | cons entity updates ih =>
      rw [List.foldl_cons, total_entity_of, ih, List.append_assoc]
      congr 2
      rw [componentFields, componentFields, componentFields, List.flatMap_singleton,
        List.flatMap_cons]

/-- The order of a summary: a component with more fields first, and of two with equally many the one
with the smaller id. -/
def ComponentFieldCount.Before (a b : ComponentFieldCount) : Prop :=
  b.changedFields < a.changedFields
    ∨ a.changedFields = b.changedFields ∧ a.componentId < b.componentId

/-- What a summary says of the updates. -/
structure UpdateSummary.Describes (summary : UpdateSummary) (updates : List DeltaUpdateEntity) :
    Prop where
  components : summary.changedComponents = (componentFields updates).length
  fields : summary.changedFields = ((componentFields updates).map Prod.snd).sum
  ordered : summary.byComponentFields.Pairwise ComponentFieldCount.Before
  counts : ∀ id n, ⟨id, n⟩ ∈ summary.byComponentFields
    ↔ id ∈ (componentFields updates).map Prod.fst ∧ n = amount id (componentFields updates)

theorem precedes_iff {a b : ComponentFieldCount} :
    precedes a b = true ↔ a.Before b ∨ a = b := by
  obtain ⟨i, m⟩ := a
  obtain ⟨j, n⟩ := b
  simp only [precedes, ComponentFieldCount.Before, Bool.or_eq_true, decide_eq_true_eq,
    Bool.and_eq_true, beq_iff_eq, ComponentFieldCount.mk.injEq]
  rcases Nat.lt_trichotomy n m with h | rfl | h
  · simp [h]
  · simp [UInt16.le_iff_lt_or_eq]
  · have hne : ¬ m = n := by omega
    have hle : ¬ n < m := by omega
    simp [hne, hle]

theorem ComponentFieldCount.Before.trans {a b c : ComponentFieldCount} (hab : a.Before b)
    (hbc : b.Before c) : a.Before c := by
  rcases hab with hab | ⟨heq, hab⟩
  · rcases hbc with hbc | ⟨hsame, -⟩
    · exact .inl (Nat.lt_trans hbc hab)
    · exact .inl (hsame ▸ hab)
  · rcases hbc with hbc | ⟨hsame, hbc⟩
    · exact .inl (heq ▸ hbc)
    · exact .inr ⟨heq.trans hsame, UInt16.lt_trans hab hbc⟩

theorem ComponentFieldCount.Before.irrefl {a : ComponentFieldCount} : ¬ a.Before a := by
  rintro (h | ⟨-, h⟩)
  · exact Nat.lt_irrefl _ h
  · exact UInt16.lt_irrefl _ h

theorem precedes_total (a b : ComponentFieldCount) : (precedes a b || precedes b a) = true := by
  simp only [precedes]
  grind

theorem precedes_trans (a b c : ComponentFieldCount) (hab : precedes a b = true)
    (hbc : precedes b c = true) : precedes a c = true := by
  rw [precedes_iff] at hab hbc ⊢
  rcases hab with hab | rfl
  · rcases hbc with hbc | rfl
    · exact .inl (hab.trans hbc)
    · exact .inl hab
  · exact hbc

theorem summarize_updates_eq (updates : List DeltaUpdateEntity) :
    summarizeUpdates updates = ⟨(componentFields updates).length,
      ((componentFields updates).map Prod.snd).sum,
      ((tallyOf (componentFields updates)).map fun entry => ⟨entry.1, entry.2⟩).mergeSort
        precedes⟩ := by
  have htotals : updates.foldl totalEntity ⟨0, 0, []⟩ = .of (componentFields updates) :=
    foldl_total_entity updates []
  rw [summarizeUpdates, htotals]
  rfl

theorem summarize_updates_describes (updates : List DeltaUpdateEntity) :
    (summarizeUpdates updates).Describes updates := by
  rw [summarize_updates_eq]
  refine ⟨rfl, rfl, ?_, fun id n => ?_⟩
  · -- the ids of a tally are distinct, so that the order of the sort is strict on its entries
    have hsorted := List.pairwise_mergeSort precedes_trans precedes_total
      ((tallyOf (componentFields updates)).map fun entry => ComponentFieldCount.mk entry.1 entry.2)
    have hids : ((tallyOf (componentFields updates)).map fun entry =>
        ComponentFieldCount.mk entry.1 entry.2).Nodup := by
      have hkeys := pairwise_tally_of (componentFields updates)
      rw [List.pairwise_map] at hkeys
      rw [List.Nodup, List.pairwise_map]
      exact hkeys.imp fun hlt heq =>
        UInt16.ne_of_lt hlt (congrArg ComponentFieldCount.componentId heq)
    have hdistinct := (List.mergeSort_perm _ precedes).nodup_iff.mpr hids
    refine (hsorted.and hdistinct).imp fun h => ?_
    exact (precedes_iff.mp h.1).resolve_right h.2
  · rw [List.mem_mergeSort, List.mem_map, ← mem_tally_of]
    constructor
    · rintro ⟨entry, hmem, heq⟩
      cases heq
      exact hmem
    · exact fun hmem => ⟨(id, n), hmem, rfl⟩

theorem UpdateSummary.Describes.nodup (h : summary.Describes updates) :
    summary.byComponentFields.Nodup := by
  refine h.ordered.imp fun {a b} hlt heq => ?_
  rw [heq] at hlt
  exact hlt.irrefl

/-- The summary of some updates is the only one that describes them: it has the number of updated
components and of updated fields, and of each updated component, in the given order, the number of
its fields that are updated in all entities together. -/
theorem summarize_updates_eq_iff :
    summarizeUpdates updates = summary ↔ summary.Describes updates := by
  constructor
  · rintro rfl
    exact summarize_updates_describes updates
  · intro h
    have hsummary := summarize_updates_describes updates
    have hperm : (summarizeUpdates updates).byComponentFields.Perm summary.byComponentFields := by
      refine (List.perm_ext_iff_of_nodup hsummary.nodup h.nodup).mpr fun count => ?_
      exact (hsummary.counts _ _).trans (h.counts _ _).symm
    have hlist := hperm.eq_of_pairwise (fun a b _ _ hab hba =>
      absurd (hab.trans hba) ComponentFieldCount.Before.irrefl) hsummary.ordered h.ordered
    obtain ⟨components, fields, counts⟩ := summary
    rw [← show _ = components from hsummary.components.trans h.components.symm,
      ← show _ = fields from hsummary.fields.trans h.fields.symm, ← show _ = counts from hlist]

/-! ## Counts of sections -/

/-- A section that is read has a count that an inspection finds, and that many entries are read. -/
theorem read_section_count {α : Type} {tag : SectionTag} {kind : LimitKind} {limit : Nat}
    {body : List UInt8} {readEntries : Nat → Call CodecError BitReader α} {a : α}
    (h : readSection tag limits kind limit body readEntries = .ok a) :
    ∃ count reader reader', readSectionCount body = .ok count
      ∧ readEntries count reader = .ok a reader' := by
  rw [readSection, check_fail_eq_ok] at h
  obtain ⟨reader', hread⟩ := eval_on_eq_ok.mp h.2
  obtain ⟨_, aligned, halign, hread⟩ := call_bind_eq_ok.mp hread
  obtain ⟨count, counted, hcount, hread⟩ := call_bind_eq_ok.mp hread
  obtain ⟨-, hread⟩ := call_check_eq_ok.mp hread
  obtain ⟨entries, behind, hentries, hread⟩ := call_bind_eq_ok.mp hread
  obtain ⟨_, last, -, hread⟩ := call_bind_eq_ok.mp hread
  obtain ⟨reader, _, -, hread⟩ := call_bind_eq_ok.mp hread
  obtain ⟨-, hread⟩ := call_check_eq_ok.mp hread
  cases hread
  refine ⟨count.toNat, counted, behind, ?_, hentries⟩
  have haligned : BitReader.alignToByte.runOn (BitReader.new body) = .ok ((), aligned) :=
    run_on_eq_ok.mpr (call_map_err_eq_ok.mp halign)
  have hvaru32 : BitReader.readVaru32.evalOn aligned = .ok count :=
    eval_on_eq_ok.mpr ⟨counted, call_map_err_eq_ok.mp hcount⟩
  simp only [readSectionCount, context, haligned, hvaru32, Outcome.mapErr, ok_bind]
  rfl

theorem length_read_ascending {α : Type} {readEntry : UInt32 → Call CodecError BitReader α}
    {count : Nat} {prev : Option UInt32} {entries : List α} {reader reader' : BitReader}
    (h : readAscending readEntry count prev reader = .ok entries reader') :
    entries.length = count := by
  induction count generalizing prev entries reader with
  | zero =>
      cases h
      rfl
  | succ count ih =>
      obtain ⟨_, _, -, h⟩ := call_bind_eq_ok.mp h
      obtain ⟨id, _, -, h⟩ := call_bind_eq_ok.mp h
      obtain ⟨_, _, -, h⟩ := call_bind_eq_ok.mp h
      obtain ⟨entry, _, -, h⟩ := call_bind_eq_ok.mp h
      obtain ⟨rest, _, hrest, h⟩ := call_bind_eq_ok.mp h
      cases h
      rw [List.length_cons, ih hrest]

/-- An entry adds one component, to the last entity or in a new one. -/
theorem component_fields_push_entry (updates : List DeltaUpdateEntity) (entityId : UInt32)
    (component : DeltaUpdateComponent) :
    componentFields (Delta.pushEntry updates entityId component)
      = componentFields updates ++ [(component.id.get, component.fields.length)] := by
  have happend : componentFields (updates ++ [⟨⟨entityId⟩, [component]⟩])
      = componentFields updates ++ [(component.id.get, component.fields.length)] := by
    rw [componentFields, List.flatMap_append, List.flatMap_singleton]
    rfl
  unfold Delta.pushEntry
  cases updates using List.reverseRecOn with
  | nil => exact happend
  | append_singleton updates last =>
      rw [List.getLast?_concat]
      dsimp only
      split
      · rw [List.dropLast_concat, componentFields, componentFields, List.flatMap_append,
          List.flatMap_append, List.flatMap_singleton, List.flatMap_singleton, List.map_append,
          List.append_assoc]
        rfl
      · exact happend

theorem length_read_sparse_entries {format : Delta.SparseReader} {count : Nat}
    {prev : Option (UInt32 × UInt16)} {updates result : List DeltaUpdateEntity}
    {reader reader' : BitReader}
    (h : Delta.readSparseEntries build format schema limits count prev updates reader
      = .ok result reader') :
    (componentFields result).length = (componentFields updates).length + count := by
  induction count generalizing prev updates reader with
  | zero =>
      cases h
      rfl
  | succ count ih =>
      obtain ⟨entry, _, -, h⟩ := call_bind_eq_ok.mp h
      rw [ih h, component_fields_push_entry, List.length_append, List.length_singleton]
      omega

/-! ## Counts of a delta -/

/-- The number of entries of the section of each kind, as far as the sections have been seen. -/
def seenCount (seen : Delta.SeenSections) : SectionTag → Option Nat
  | .entityDestroy => seen.destroys.map List.length
  | .entityCreate => seen.creates.map List.length
  | .entityUpdate => seen.updatesMasked.map List.length
  | .entityUpdateSparse | .entityUpdateSparsePacked =>
      seen.updatesSparse.map fun updates => (componentFields updates).length
  | .sessionInit => none

/-- The number of entries of the section of each kind, in a packet that is decoded to the delta. -/
def decodedCount (decoded : DeltaDecoded) : SectionTag → Option Nat
  | .entityDestroy => some decoded.destroys.length
  | .entityCreate => some decoded.creates.length
  | .entityUpdate => some decoded.updates.length
  | .entityUpdateSparse | .entityUpdateSparsePacked => some (componentFields decoded.updates).length
  | .sessionInit => none

theorem decode_destroy_section_count {body : List UInt8} {destroys : List EntityId}
    (h : Delta.decodeDestroySection body limits = .ok destroys) :
    readSectionCount body = .ok destroys.length := by
  obtain ⟨count, _, _, hcount, hentries⟩ := read_section_count h
  rw [hcount, length_read_ascending hentries]

theorem decode_create_section_count {body : List UInt8} {creates : List EntitySnapshot}
    (h : Delta.decodeCreateSection build schema body limits = .ok creates) :
    readSectionCount body = .ok creates.length := by
  obtain ⟨count, _, _, hcount, hentries⟩ := read_section_count h
  rw [hcount, length_read_ascending hentries]

theorem decode_masked_section_count {body : List UInt8}
    (h : Delta.decodeUpdateSectionMasked build schema body limits = .ok updates) :
    readSectionCount body = .ok updates.length := by
  obtain ⟨count, _, _, hcount, hentries⟩ := read_section_count h
  rw [hcount, length_read_ascending hentries]

theorem decode_sparse_section_count {format : Delta.SparseReader} {body : List UInt8}
    (h : Delta.decodeUpdateSectionSparse format build schema body limits = .ok updates) :
    readSectionCount body = .ok (componentFields updates).length := by
  obtain ⟨read, hread, h⟩ := bind_eq_ok.mp h
  rw [check_fail_eq_ok] at h
  cases h.2
  obtain ⟨count, _, _, hcount, hentries⟩ := read_section_count hread
  rw [hcount, length_read_sparse_entries hentries]
  rw [componentFields, List.flatMap_nil, List.length_nil, Nat.zero_add]

theorem ensure_first_eq_ok {α : Type} {seen : Option α} {tag : SectionTag} {u : Unit} :
    Delta.ensureFirst seen tag = .ok u ↔ seen = none := by
  unfold Delta.ensureFirst
  cases seen with
  | none => exact ⟨fun _ => rfl, fun _ => rfl⟩
  | some a => exact ⟨fun h => (nomatch h), fun h => nomatch h⟩

/-- One arm of `decode_delta_sections`: the list of a section that is the first of its kind. -/
theorem first_section_eq_ok {α : Type} {seen : Option α} {tag : SectionTag}
    {decode : Outcome CodecError α} {keep : α → Delta.SeenSections} {seen' : Delta.SeenSections} :
    (do
      Delta.ensureFirst seen tag
      let list ← decode
      return keep list) = .ok seen'
      ↔ seen = none ∧ ∃ list, decode = .ok list ∧ keep list = seen' := by
  rw [bind_eq_ok]
  simp only [ensure_first_eq_ok, bind_eq_ok, pure_eq_ok, exists_and_left, exists_const]

/-- A count that stands is kept when a list is only put where none was. -/
theorem count_kept {α : Type} {list list' : Option α} {count : α → Nat} {n : Nat}
    (h : list = none ∨ list' = list) (hn : list.map count = some n) :
    list'.map count = some n := by
  rcases h with rfl | rfl
  · cases hn
  · exact hn

theorem seen_count_kept {seen seen' : Delta.SeenSections}
    (hdestroys : seen.destroys = none ∨ seen'.destroys = seen.destroys)
    (hcreates : seen.creates = none ∨ seen'.creates = seen.creates)
    (hmasked : seen.updatesMasked = none ∨ seen'.updatesMasked = seen.updatesMasked)
    (hsparse : seen.updatesSparse = none ∨ seen'.updatesSparse = seen.updatesSparse)
    (tag : SectionTag) (n : Nat) (hn : seenCount seen tag = some n) :
    seenCount seen' tag = some n := by
  cases tag with
  | entityDestroy => exact count_kept hdestroys hn
  | entityCreate => exact count_kept hcreates hn
  | entityUpdate => exact count_kept hmasked hn
  | entityUpdateSparse | entityUpdateSparsePacked => exact count_kept hsparse hn
  | sessionInit => cases hn

/-- A section is counted as an inspection counts it, and changes no count that stands already. -/
theorem decode_delta_section_count {seen seen' : Delta.SeenSections} {section_ : WireSection}
    (h : Delta.decodeDeltaSection build schema limits seen section_ = .ok seen') :
    (∀ tag n, seenCount seen tag = some n → seenCount seen' tag = some n)
      ∧ ∃ n, seenCount seen' section_.tag = some n ∧ readSectionCount section_.body = .ok n := by
  obtain ⟨tag, body⟩ := section_
  cases tag with
  | entityDestroy =>
      obtain ⟨hnone, _, hsection, rfl⟩ := first_section_eq_ok.mp h
      exact ⟨seen_count_kept (.inl hnone) (.inr rfl) (.inr rfl) (.inr rfl), _, rfl,
        decode_destroy_section_count hsection⟩
  | entityCreate =>
      obtain ⟨hnone, _, hsection, rfl⟩ := first_section_eq_ok.mp h
      exact ⟨seen_count_kept (.inr rfl) (.inl hnone) (.inr rfl) (.inr rfl), _, rfl,
        decode_create_section_count hsection⟩
  | entityUpdate =>
      obtain ⟨hnone, _, hsection, rfl⟩ := first_section_eq_ok.mp h
      exact ⟨seen_count_kept (.inr rfl) (.inr rfl) (.inl hnone) (.inr rfl), _, rfl,
        decode_masked_section_count hsection⟩
  | entityUpdateSparse =>
      obtain ⟨hnone, _, hsection, rfl⟩ := first_section_eq_ok.mp h
      exact ⟨seen_count_kept (.inr rfl) (.inr rfl) (.inr rfl) (.inl hnone), _, rfl,
        decode_sparse_section_count hsection⟩
  | entityUpdateSparsePacked =>
      obtain ⟨hnone, _, hsection, rfl⟩ := first_section_eq_ok.mp h
      exact ⟨seen_count_kept (.inr rfl) (.inr rfl) (.inr rfl) (.inl hnone), _, rfl,
        decode_sparse_section_count hsection⟩
  | sessionInit => cases h

/-- Every section that has been decoded is counted, by the decoder and by an inspection alike. -/
theorem decode_delta_section_counts {sections : List WireSection} {seen seen' : Delta.SeenSections}
    (h : sections.foldlM (Delta.decodeDeltaSection build schema limits) seen = .ok seen') :
    (∀ tag n, seenCount seen tag = some n → seenCount seen' tag = some n)
      ∧ ∀ s ∈ sections, ∃ n, seenCount seen' s.tag = some n ∧ readSectionCount s.body = .ok n := by
  induction sections generalizing seen with
  | nil =>
      cases h
      exact ⟨fun _ _ hn => hn, fun _ hs => nomatch hs⟩
  | cons section_ sections ih =>
      rw [List.foldlM_cons] at h
      obtain ⟨next, hstep, h⟩ := bind_eq_ok.mp h
      obtain ⟨hkept, n, hn, hcount⟩ := decode_delta_section_count hstep
      obtain ⟨hlater, hrest⟩ := ih h
      refine ⟨fun tag m hm => hlater tag m (hkept tag m hm), fun s hs => ?_⟩
      rcases List.mem_cons.mp hs with rfl | hs
      · exact ⟨n, hlater _ n hn, hcount⟩
      · exact hrest s hs

/-- What the decoder makes of the sections that it has seen. -/
theorem decode_delta_sections_seen {packet : WirePacket} {destroys : List EntityId}
    {creates : List EntitySnapshot}
    (h : Delta.decodeDeltaSections build schema packet limits = .ok (destroys, creates, updates)) :
    ∃ seen, packet.sections.foldlM (Delta.decodeDeltaSection build schema limits)
        ⟨none, none, none, none⟩ = .ok seen
      ∧ destroys = seen.destroys.getD [] ∧ creates = seen.creates.getD []
      ∧ (∀ masked, seen.updatesMasked = some masked → updates = masked)
      ∧ ∀ sparse, seen.updatesSparse = some sparse → updates = sparse := by
  obtain ⟨⟨seenDestroys, seenCreates, masked, sparse⟩, hseen, h⟩ := bind_eq_ok.mp h
  refine ⟨_, hseen, ?_⟩
  cases masked <;> cases sparse <;>
    simp only [pure_eq_ok, fail_eq_ok, Prod.mk.injEq] at h
  all_goals
    obtain ⟨rfl, rfl, rfl⟩ := h
    simp

/-- The counts of the sections are those of the decoded lists. -/
theorem decoded_count_of_decode {packet : WirePacket} {decoded : DeltaDecoded}
    (h : decodeDeltaPacket build schema packet limits = .ok decoded) :
    ∀ s ∈ packet.sections, ∃ n, decodedCount decoded s.tag = some n
      ∧ readSectionCount s.body = .ok n := by
  intro s hs
  obtain ⟨seen, hseen, hdestroys, hcreates, hmasked, hsparse⟩ :=
    decode_delta_sections_seen (decode_delta_packet_eq_ok.mp h).2.1
  obtain ⟨n, hn, hcount⟩ := (decode_delta_section_counts hseen).2 s hs
  refine ⟨n, ?_, hcount⟩
  generalize s.tag = tag at hn
  cases tag with
  | entityDestroy =>
      obtain ⟨destroys, hlist, rfl⟩ := Option.map_eq_some_iff.mp hn
      rw [decodedCount, hdestroys, hlist, Option.getD_some]
  | entityCreate =>
      obtain ⟨creates, hlist, rfl⟩ := Option.map_eq_some_iff.mp hn
      rw [decodedCount, hcreates, hlist, Option.getD_some]
  | entityUpdate =>
      obtain ⟨masked, hlist, rfl⟩ := Option.map_eq_some_iff.mp hn
      rw [decodedCount, hmasked masked hlist]
  | entityUpdateSparse | entityUpdateSparsePacked =>
      obtain ⟨sparse, hlist, rfl⟩ := Option.map_eq_some_iff.mp hn
      rw [decodedCount, hsparse sparse hlist]
  | sessionInit => cases hn

/-! ## Reports -/

/-- What an inspection with the schema says of a delta. -/
def describeDelta (packet : WirePacket) (decoded : DeltaDecoded) : InspectReport where
  header := packet.header
  sections := packet.sections.map fun s => ⟨s.tag, s.body.length, decodedCount decoded s.tag⟩
  updateSummary := some (summarizeUpdates decoded.updates)

theorem inspect_section_eq {section_ : WireSection} {n : Nat} {decoded : DeltaDecoded}
    (hn : decodedCount decoded section_.tag = some n)
    (hcount : readSectionCount section_.body = .ok n) :
    inspectSection section_
      = .ok ⟨section_.tag, section_.body.length, decodedCount decoded section_.tag⟩ := by
  obtain ⟨tag, body⟩ := section_
  rw [hn]
  cases tag with
  | sessionInit => cases hn
  | entityDestroy | entityCreate | entityUpdate | entityUpdateSparse | entityUpdateSparsePacked =>
      rw [inspectSection]
      dsimp only
      rw [hcount]
      rfl

/-- An inspection with the schema reports a delta exactly where the packet and the delta in it are
decoded. The counts of its sections are then the lengths of the decoded lists, for a sparse section
the number of updated components, and its summary is that of the decoded updates. -/
theorem inspect_delta_eq_ok {bytes : List UInt8} {report : InspectReport} :
    inspectPacket build bytes (some schema) wireLimits limits = .ok report
        ∧ report.header.flags.isDeltaSnapshot ↔
      ∃ packet decoded, decodePacket bytes wireLimits = .ok packet
        ∧ decodeDeltaPacket build schema packet limits = .ok decoded
        ∧ report = describeDelta packet decoded := by
  have hsections {packet : WirePacket} {decoded : DeltaDecoded}
      (hdecoded : decodeDeltaPacket build schema packet limits = .ok decoded) :
      packet.sections.mapM inspectSection = .ok (describeDelta packet decoded).sections := by
    refine mapM_eq_ok_map fun s hs => ?_
    obtain ⟨n, hn, hcount⟩ := decoded_count_of_decode hdecoded s hs
    exact inspect_section_eq hn hcount
  constructor
  · rintro ⟨h, hdelta⟩
    obtain ⟨packet, hpacket, h⟩ := bind_eq_ok.mp h
    obtain ⟨sections, hmap, h⟩ := bind_eq_ok.mp h
    cases hflag : packet.header.flags.isDeltaSnapshot with
    | false =>
        rw [hflag] at h
        cases h
        exact absurd (hflag.symm.trans hdelta) (by decide)
    | true =>
        rw [hflag] at h
        obtain ⟨decoded, hdecoded, h⟩ := bind_eq_ok.mp h
        cases h
        have hdecoded := map_err_eq_ok.mp hdecoded
        rw [hsections hdecoded] at hmap
        cases hmap
        exact ⟨packet, decoded, map_err_eq_ok.mp hpacket, hdecoded, rfl⟩
  · rintro ⟨packet, decoded, hpacket, hdecoded, rfl⟩
    have hflag : packet.header.flags.isDeltaSnapshot = true :=
      (decode_delta_packet_eq_ok.mp hdecoded).1.1
    refine ⟨?_, hflag⟩
    rw [inspectPacket, hpacket]
    simp only [context, Outcome.mapErr, ok_bind]
    rw [hsections hdecoded, hflag, ok_bind]
    dsimp only
    rw [hdecoded]
    rfl

end Sdec.Tools
