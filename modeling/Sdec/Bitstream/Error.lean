import Sdec.Rust.Outcome

/-!
# Bitstream errors

The error type of the bit-level reader and writer, after `bitstream/src/error.rs`.
-/

namespace Sdec.Bitstream

/-- `BitError`. -/
inductive BitError where
  | unexpectedEof (requested available : Nat)
  | writeOverflow (attempted available : Nat)
  | invalidBitCount (bits maxBits : UInt8)
  | valueOutOfRange (value : UInt64) (bits : UInt8)
  | invalidVarint
  | misalignedAccess (bitPosition : Nat)
  deriving DecidableEq, Repr

end Sdec.Bitstream
