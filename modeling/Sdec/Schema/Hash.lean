import Sdec.Schema.Definition

/-!
# Schema hashing

`schema_hash`, after `schema/src/hash.rs`. The hash is the first eight bytes of the BLAKE3 digest of
a serialization of the schema. BLAKE3 is a crate of its own, and a build supplies it.
-/

namespace Sdec

open Rust

/-- What the source leaves to its build: whether arithmetic overflow panics (a debug, test or fuzz
build) or wraps (a release build), and the digest of the `blake3` crate. -/
structure Build where
  overflowChecks : Bool
  blake3 : List UInt8 → Vector UInt8 32

/-- The bytes that `write_fixed_point` hashes. -/
def writeFixedPoint (fp : FixedPoint) : List UInt8 :=
  leBytes 8 fp.minQ.toUInt64.toNat ++ leBytes 8 fp.maxQ.toUInt64.toNat ++ leBytes 4 fp.scale.toNat

/-- The bytes that `write_codec` hashes. -/
def writeCodec : FieldCodec → List UInt8
  | .bool => [0]
  | .uint bits => [1, bits]
  | .sint bits => [2, bits]
  | .varUInt => [3]
  | .varSInt => [4]
  | .fixedPoint fp => 5 :: writeFixedPoint fp

/-- The bytes that `write_change_policy` hashes. -/
def writeChangePolicy : ChangePolicy → List UInt8
  | .always => [0]
  | .threshold thresholdQ => 1 :: leBytes 4 thresholdQ.toNat

/-- The bytes that `schema_hash` hashes for a field. -/
def hashedField (field : FieldDef) : List UInt8 :=
  leBytes 2 field.id.get.toNat ++ writeCodec field.codec ++ writeChangePolicy field.change

/-- The bytes that `schema_hash` hashes for a component. Its number of fields is cut to a `u32`. -/
def hashedComponent (component : ComponentDef) : List UInt8 :=
  leBytes 2 component.id.get.toNat ++ leBytes 4 component.fields.length
    ++ component.fields.flatMap hashedField

/-- The bytes that `schema_hash` hashes. The number of components is cut to a `u32`. -/
def hashedSchema (schema : Schema) : List UInt8 :=
  leBytes 4 schema.components.length ++ schema.components.flatMap hashedComponent

/-- `schema_hash`. -/
def schemaHash (build : Build) (schema : Schema) : UInt64 :=
  UInt64.ofNat (leNat ((build.blake3 (hashedSchema schema)).toList.take 8))

/-! ## The schema of the golden test -/

/-- The schema of `schema_hash_golden`. -/
def goldenSchema : Schema where
  components := [{
    id := ⟨10, nonzero_ten⟩
    fields := [
      { id := ⟨1, nonzero_one⟩, codec := .bool, change := .always },
      { id := ⟨2, nonzero_two⟩, codec := .sint 12, change := .always },
      { id := ⟨3, nonzero_three⟩, codec := .uint 5, change := .threshold 3 },
      { id := ⟨4, nonzero_four⟩, codec := .fixedPoint ⟨-500, 500, 100⟩, change := .always }] }]

/-- A build with the digest that BLAKE3 has for `goldenSchema`. -/
def goldenBuild (overflowChecks : Bool) : Build where
  overflowChecks := overflowChecks
  blake3 _ := #v[
    203, 95, 129, 138, 69, 190, 32, 147, 85, 108, 180, 14, 233, 229, 97, 11,
    67, 63, 212, 135, 81, 21, 209, 156, 255, 196, 119, 170, 242, 132, 59, 210]

/-- The hash that the golden test asserts. -/
example : schemaHash (goldenBuild false) goldenSchema = 0x9320BE458A815FCB := by decide

theorem golden_schema_new : Schema.new goldenSchema.components = .ok goldenSchema := by decide

end Sdec
