import Sdec.Bits.PrefixFree
import Sdec.Schema.Hash

/-!
# What the schema hash covers

The bytes that `schema_hash` hashes determine the schema: no separators are needed between fields
and components, since each part is prefix-free. Two schemas with one hash are a collision of the
digest.
-/

namespace Sdec

open Rust Bits

theorem prefix_free_fixed_point : PrefixFree writeFixedPoint fun _ => True := by
  have hparts := ((prefix_free_leBytes 8).append (prefix_free_leBytes 8)).append
    (prefix_free_leBytes 4)
  have hinjective : Function.Injective fun fp : FixedPoint =>
      ((fp.minQ.toUInt64.toNat, fp.maxQ.toUInt64.toNat), fp.scale.toNat) := by
    intro ⟨⟨minQ⟩, ⟨maxQ⟩, scale⟩ ⟨⟨minQ'⟩, ⟨maxQ'⟩, scale'⟩ h
    simp only [Prod.mk.injEq, UInt64.toNat_inj, UInt32.toNat_inj] at h
    obtain ⟨⟨rfl, rfl⟩, rfl⟩ := h
    rfl
  intro a b s t _ _ h
  exact hparts.comap hinjective a b s t ⟨⟨UInt64.toNat_lt _, UInt64.toNat_lt _⟩, UInt32.toNat_lt _⟩
    ⟨⟨UInt64.toNat_lt _, UInt64.toNat_lt _⟩, UInt32.toNat_lt _⟩ h

/-- The first byte tells the codecs apart. -/
theorem prefix_free_codec : PrefixFree writeCodec fun _ => True := by
  intro a b s t _ _ h
  cases a with
  | fixedPoint fp =>
      cases b with
      | fixedPoint fp' =>
          obtain ⟨rfl, hrest⟩ := prefix_free_fixed_point fp fp' s t trivial trivial
            (List.cons.inj h).2
          exact ⟨rfl, hrest⟩
      | _ => exact absurd (List.cons.inj h).1 (by decide)
  | uint bits | sint bits =>
      cases b <;> simp_all [writeCodec]
  | bool | varUInt | varSInt =>
      cases b <;> simp_all [writeCodec]

theorem prefix_free_change_policy : PrefixFree writeChangePolicy fun _ => True := by
  intro a b s t _ _ h
  cases a with
  | always =>
      cases b with
      | always => exact ⟨rfl, (List.cons.inj h).2⟩
      | threshold thresholdQ => exact absurd (List.cons.inj h).1 (by decide)
  | threshold thresholdQ =>
      cases b with
      | always => exact absurd (List.cons.inj h).1 (by decide)
      | threshold thresholdQ' =>
          obtain ⟨hvalue, hrest⟩ := prefix_free_leBytes 4 _ _ s t thresholdQ.toNat_lt
            thresholdQ'.toNat_lt (List.cons.inj h).2
          rw [UInt32.toNat_inj] at hvalue
          exact ⟨congrArg _ hvalue, hrest⟩

theorem prefix_free_field : PrefixFree hashedField fun _ => True := by
  have hparts := ((prefix_free_leBytes 2).append prefix_free_codec).append prefix_free_change_policy
  have hinjective : Function.Injective fun field : FieldDef =>
      ((field.id.get.toNat, field.codec), field.change) := by
    intro ⟨⟨id, _⟩, codec, change⟩ ⟨⟨id', _⟩, codec', change'⟩ h
    simp only [FieldId.get, Prod.mk.injEq, UInt16.toNat_inj] at h
    obtain ⟨⟨rfl, rfl⟩, rfl⟩ := h
    rfl
  intro a b s t _ _ h
  exact hparts.comap hinjective a b s t ⟨⟨UInt16.toNat_lt _, trivial⟩, trivial⟩
    ⟨⟨UInt16.toNat_lt _, trivial⟩, trivial⟩ h

/-- A component with fewer than `2 ^ 32` fields. -/
theorem prefix_free_component :
    PrefixFree hashedComponent fun component => component.fields.length < 2 ^ 32 := by
  have hparts := (prefix_free_leBytes 2).append (prefix_free_field.counted 4)
  have hinjective : Function.Injective fun component : ComponentDef =>
      (component.id.get.toNat, component.fields) := by
    intro ⟨⟨id, _⟩, fields⟩ ⟨⟨id', _⟩, fields'⟩ h
    simp only [ComponentId.get, Prod.mk.injEq, UInt16.toNat_inj] at h
    obtain ⟨rfl, rfl⟩ := h
    rfl
  intro a b s t ha hb h
  rw [hashedComponent, hashedComponent, List.append_assoc _ _ (a.fields.flatMap _),
    List.append_assoc _ _ (b.fields.flatMap _)] at h
  exact hparts.comap hinjective a b s t ⟨UInt16.toNat_lt _, ha, fun _ _ => trivial⟩
    ⟨UInt16.toNat_lt _, hb, fun _ _ => trivial⟩ h

/-- The bytes that the schema hash covers determine the schema: its components in their order, and
their fields with all parameters. Neither schema needs to be valid for that. -/
theorem hashed_schema_injective (schema schema' : Schema)
    (hcomponents : schema.components.length < 2 ^ 32)
    (hcomponents' : schema'.components.length < 2 ^ 32)
    (hfields : ∀ component ∈ schema.components, component.fields.length < 2 ^ 32)
    (hfields' : ∀ component ∈ schema'.components, component.fields.length < 2 ^ 32)
    (h : hashedSchema schema = hashedSchema schema') : schema = schema' := by
  have hlist := (prefix_free_component.counted 4).eq_of_eq ⟨hcomponents, hfields⟩
    ⟨hcomponents', hfields'⟩ h
  cases schema
  cases schema'
  exact congrArg Schema.mk hlist

theorem hashed_schema_injective_golden : goldenSchema = ⟨goldenSchema.components⟩ :=
  hashed_schema_injective goldenSchema ⟨goldenSchema.components⟩ (by decide) (by decide) (by decide)
    (by decide) rfl

end Sdec
