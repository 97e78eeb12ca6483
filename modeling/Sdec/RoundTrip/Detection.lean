import Sdec.RoundTrip.Threshold

/-!
# The comparison with a threshold

Signed values are compared with a threshold through an `i64` difference, which can leave its type.
Read `threshold_detection_exact_iff` first: a build with overflow checks then panics, and a release
build compares the distance from the other side of the wrap, which can be small.
-/

namespace Sdec

open Rust Codec

variable {build : Build} {componentId : ComponentId} {field : FieldDef} {threshold : UInt32}
  {base curr : FieldValue} {x y : Int}

/-- The codecs whose values are compared through a signed difference. -/
def FieldCodec.IsSigned : FieldCodec → Prop
  | .sint _ | .varSInt | .fixedPoint _ => True
  | .bool | .uint _ | .varUInt => False

/-- The difference of two signed values is an `i64` where overflow is checked, and elsewhere the
wrapped one is still beyond the threshold. -/
def DifferenceFits (build : Build) (codec : FieldCodec) (threshold : UInt32) (x y : Int) : Prop :=
  codec.IsSigned → (build.overflowChecks → -2 ^ 63 ≤ x - y ∧ x - y < 2 ^ 63)
    ∧ (x - y).natAbs + threshold.toNat < 2 ^ 64

/-- The absolute value of an `i64` difference that wraps. -/
theorem wrapped_natAbs (a b : Int64) :
    (a - b).toInt.natAbs
      = if -2 ^ 63 ≤ a.toInt - b.toInt ∧ a.toInt - b.toInt < 2 ^ 63 then (a.toInt - b.toInt).natAbs
        else 2 ^ 64 - (a.toInt - b.toInt).natAbs := by
  have ha := a.toInt_lt
  have ha' := a.le_toInt
  have hb := b.toInt_lt
  have hb' := b.le_toInt
  rw [Int64.toInt_sub]
  by_cases hfits : -2 ^ 63 ≤ a.toInt - b.toInt ∧ a.toInt - b.toInt < 2 ^ 63
  · rw [if_pos hfits, Int.bmod_eq_of_le (by omega) (by omega)]
  · rw [if_neg hfits, Int.bmod_def]
    split <;> omega

/-- The comparison of two signed values. -/
theorem signed_exceeds_iff (a b : Int64) :
    (do
      let difference ← build.sub a b
      return decide (difference.toInt.natAbs > threshold.toNat) : Outcome CodecError Bool)
        = .ok (decide (threshold.toNat < (a.toInt - b.toInt).natAbs)) ↔
      (build.overflowChecks → -2 ^ 63 ≤ a.toInt - b.toInt ∧ a.toInt - b.toInt < 2 ^ 63)
        ∧ (a.toInt - b.toInt).natAbs + threshold.toNat < 2 ^ 64 := by
  have ha := a.toInt_lt
  have ha' := a.le_toInt
  have hb := b.toInt_lt
  have hb' := b.le_toInt
  have ht := threshold.toNat_lt
  have habs := wrapped_natAbs a b
  have hexact : (a - b).toInt = a.toInt - b.toInt
      ↔ -2 ^ 63 ≤ a.toInt - b.toInt ∧ a.toInt - b.toInt < 2 ^ 63 := by
    rw [Int64.toInt_sub]
    constructor
    · intro h
      have := @Int.bmod_lt (a.toInt - b.toInt) (2 ^ 64) (by decide)
      have := @Int.le_bmod (a.toInt - b.toInt) (2 ^ 64) (by decide)
      omega
    · intro h
      exact Int.bmod_eq_of_le (by omega) (by omega)
  by_cases hfits : -2 ^ 63 ≤ a.toInt - b.toInt ∧ a.toInt - b.toInt < 2 ^ 63
  · rw [if_pos hfits] at habs
    rw [sub_eq_pure fun _ => hexact.mpr hfits, pure_bind, habs]
    exact iff_of_true rfl ⟨fun _ => hfits, by omega⟩
  · rw [if_neg hfits] at habs
    by_cases hchecks : build.overflowChecks
    · rw [sub_eq_panic hchecks (mt hexact.mp hfits)]
      exact iff_of_false (fun h => by cases h) fun h => hfits (h.1 hchecks)
    · rw [sub_eq_pure fun h => absurd h hchecks, pure_bind, pure_eq_ok, habs]
      -- The exact difference is beyond every threshold, and the wrapped one perhaps is not.
      rw [decide_eq_decide, and_iff_right fun h => absurd h hchecks]
      omega

/-- The comparison of two unsigned values. -/
theorem abs_diff_eq (a b : UInt64) : absDiff a b = ((a.toNat : Int) - b.toNat).natAbs := by
  unfold absDiff
  omega

/-- On values of its codec, a threshold field counts as changed exactly if the values are further
apart than the threshold, as long as the difference fits. -/
theorem field_changed_exact_iff (hchange : field.change = .threshold threshold)
    (hbase : field.codec.Contains base) (hcurr : field.codec.Contains curr)
    (hx : base.number = some x) (hy : curr.number = some y) :
    fieldChanged build componentId field base curr = .ok (decide (threshold.toNat < (x - y).natAbs))
      ↔ DifferenceFits build field.codec threshold x y := by
  rw [fieldChanged, hchange]
  dsimp only
  unfold DifferenceFits
  cases hcodec : field.codec with
  | bool =>
      rw [hcodec] at hbase
      cases base with
      | bool v => cases hx
      | uint v | sint v | varUInt v | varSInt v | fixedPoint v => exact hbase.elim
  | uint bits | varUInt =>
      rw [hcodec] at hbase hcurr
      cases base <;> first | exact hbase.elim | skip
      cases curr <;> first | exact hcurr.elim | skip
      cases hx
      cases hy
      rw [fieldExceedsThreshold, abs_diff_eq]
      exact iff_of_true rfl fun h => h.elim
  | sint bits | varSInt | fixedPoint fp =>
      rw [hcodec] at hbase hcurr
      cases base <;> first | exact hbase.elim | skip
      cases curr <;> first | exact hcurr.elim | skip
      cases hx
      cases hy
      exact (signed_exceeds_iff _ _).trans ⟨fun h _ => h, fun h => h trivial⟩

/-- A field whose bit is not set in the mask of a component did not count as changed. -/
theorem field_changed_of_unmasked {definition : ComponentDef} {baseline current : List FieldValue}
    {slots mask : List Bool} {k : Nat} {changed : Bool}
    (hbaseline : baseline.length = definition.fields.length)
    (hcurrent : current.length = definition.fields.length)
    (hslots : slots.length = definition.fields.length)
    (hmask : computeFieldMaskLoop build componentId definition.fields baseline current
      slots = .ok mask)
    (hfield : definition.fields[k]? = some field) (hb : baseline[k]? = some base)
    (hc : current[k]? = some curr) (hk : mask[k]? = some false)
    (hchanged : fieldChanged build componentId field base curr = .ok changed) :
      changed = false := by
  have hzip : (definition.fields.zip (baseline.zip current))[k]? = some (field, base, curr) := by
    rw [List.getElem?_zip_eq_some, List.getElem?_zip_eq_some]
    exact ⟨hfield, hb, hc⟩
  rw [compute_field_mask_loop_eq hbaseline hcurrent hslots hmask, changedMask, List.getElem?_map,
    hzip] at hk
  have hbit : hasChanged build componentId field base curr = false := Option.some.inj hk
  rwa [has_changed_of_ok hchanged] at hbit

/-- On values of its codec, a threshold field counts as changed exactly if the values are further
apart than the threshold, as long as the difference fits. Then a field that the mask of a delta
leaves out is within its threshold of the baseline. -/
theorem threshold_detection_exact_iff (hchange : field.change = .threshold threshold)
    (hbase : field.codec.Contains base) (hcurr : field.codec.Contains curr)
    (hx : base.number = some x) (hy : curr.number = some y) :
    (fieldChanged build componentId field base curr
        = .ok (decide (threshold.toNat < (x - y).natAbs))
      ↔ DifferenceFits build field.codec threshold x y) ∧
    (DifferenceFits build field.codec threshold x y →
      ∀ (definition : ComponentDef) (baseline current : List FieldValue) (slots mask : List Bool)
        (k : Nat),
        baseline.length = definition.fields.length → current.length = definition.fields.length →
        slots.length = definition.fields.length →
        computeFieldMaskLoop build componentId definition.fields baseline current slots = .ok mask →
        definition.fields[k]? = some field → baseline[k]? = some base → current[k]? = some curr →
        mask[k]? = some false → (x - y).natAbs ≤ threshold.toNat) := by
  have hexact :=
    @field_changed_exact_iff build componentId field threshold base curr x y hchange hbase
      hcurr hx hy
  refine ⟨hexact, fun hfits definition baseline current slots mask k hbaseline hcurrent hslots hmask
    hfield hb hc hk => ?_⟩
  have hsame := field_changed_of_unmasked hbaseline hcurrent hslots hmask hfield hb hc hk
    (hexact.mpr hfits)
  exact Nat.le_of_not_lt (of_decide_eq_false hsame)

/-- A threshold field of 64 signed bits. -/
def wideField : FieldDef := ⟨⟨1, nonzero_one⟩, .sint 64, .threshold 1⟩

/-- Values whose difference fits. -/
theorem threshold_detection_exact_iff_near :
    fieldChanged (goldenBuild true) ⟨1, nonzero_one⟩ wideField (.sint 7) (.sint 4) = .ok true
      ∧ DifferenceFits (goldenBuild true) (.sint 64) 1 7 4 := by
  have hfits : DifferenceFits (goldenBuild true) (.sint 64) 1 7 4 :=
    fun _ => ⟨fun _ => by decide, by decide⟩
  have h := @threshold_detection_exact_iff (goldenBuild true) ⟨1, nonzero_one⟩ wideField 1 (.sint 7)
    (.sint 4) 7 4 rfl (by decide) (by decide) rfl rfl
  exact ⟨h.1.mpr hfits, hfits⟩

/-- The least and the greatest value of 64 signed bits are the furthest apart, and a release build
takes them to differ by one. -/
theorem threshold_detection_wraps :
    (goldenBuild false).overflowChecks = false
      ∧ wideField.codec.Contains (.sint (-9223372036854775808))
      ∧ wideField.codec.Contains (.sint 9223372036854775807)
      ∧ fieldChanged (goldenBuild false) ⟨1, nonzero_one⟩ wideField (.sint (-9223372036854775808))
        (.sint 9223372036854775807) = .ok false
      ∧ (1 : UInt32).toNat < ((-9223372036854775808 : Int) - 9223372036854775807).natAbs :=
  ⟨rfl, by decide, by decide, by decide +kernel, by decide⟩

end Sdec
