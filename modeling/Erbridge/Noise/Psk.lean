import Mathlib.Data.List.Basic

/-!
# Pre-shared keys

The key type that the Noise handshake, the tenants and the enrollment codes have in common.
-/

namespace Erbridge
namespace Noise

/-- A 32-byte Noise pre-shared key. -/
structure Psk where
  bytes : List UInt8
  length_eq : bytes.length = 32
deriving DecidableEq

/-- The key whose 32 bytes are all `b`. -/
def Psk.repeated (b : UInt8) : Psk :=
  ⟨List.replicate 32 b, by simp⟩

theorem Psk.repeated_injective {a b : UInt8} (h : Psk.repeated a = Psk.repeated b) : a = b := by
  have hbytes : List.replicate 32 a = List.replicate 32 b := congrArg Psk.bytes h
  simpa using hbytes

end Noise

end Erbridge
