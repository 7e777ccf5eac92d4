import FlipFlop.Version
/-!
# UpdateMessage — the two messages of a software update (`data/src/update.rs`)

A prepare message names the update, its length and the key of what follows; an update message carries some of its bytes
with the offset they belong at.
-/
namespace FlipFlop
namespace SoftwareUpdate

open Rust (HVec)
open Postcard

/-- `UpdateKey`, a newtype of its bytes. -/
abbrev UpdateKey := Vector UInt8 16

structure PrepareForUpdate where
  version : Version
  serverPorts : UInt8
  updateKey : UpdateKey
  updateByteLen : UInt32
  signed : Bool
  deriving Repr, DecidableEq

instance : Serde PrepareForUpdate :=
  Serde.via (fun p => (p.version, p.serverPorts, p.updateKey, p.updateByteLen, p.signed))
    (fun (version, serverPorts, updateKey, updateByteLen, signed) =>
      ⟨version, serverPorts, updateKey, updateByteLen, signed⟩)

instance : LawfulSerde PrepareForUpdate := LawfulSerde.via _ _ (fun _ => rfl)

structure Update (N : Nat) where
  byteOffset : UInt32
  bytes : HVec UInt8 N
  deriving Repr, DecidableEq

instance {N : Nat} : Serde (Update N) :=
  Serde.via (fun u => (u.byteOffset, u.bytes)) (fun (byteOffset, bytes) => ⟨byteOffset, bytes⟩)

/-- The bytes of an `Update` that are not its payload, for a `byteOffset` of four bytes and fewer than 128 bytes. -/
def UPDATE_BYTES_OVERHEAD : Nat := 4 + 1

variable {N : Nat}

theorem fromBytes_ser_update (u : Update N) (hu : u.bytes.toList.length < 2 ^ usizeBits) :
    fromBytes (ser u) = .ok u :=
  fromBytes_of_de (Serde.via_de_ser (fun _ => rfl) (de_ser_prod (de_ser_hvec u.bytes hu [])))

theorem ser_update (u : Update N) : ser u = ser u.byteOffset ++ serSlice u.bytes.toList := rfl

theorem ser_prepare (p : PrepareForUpdate) : ser p
    = ser p.version ++ (ser p.serverPorts ++ (ser p.updateKey ++ (ser p.updateByteLen ++ ser p.signed))) := rfl

theorem length_ser_update (u : Update N) (hu : u.bytes.toList.length < 128) :
    (ser u).length = varintLen u.byteOffset.toNat + 1 + u.bytes.toList.length := by
  have hslice : (serSlice u.bytes.toList).length = 1 + u.bytes.toList.length := by
    rw [length_serSlice (by unfold usizeBits; omega), varintLen_of_lt hu]
  rw [ser_update, List.length_append, length_ser_uint32, hslice]
  omega

/-- **The overhead is four bytes for an offset below `2 ^ 28` and one for the length**, and one more from there on. -/
theorem length_ser_update_le_iff (u : Update N) (hu : u.bytes.toList.length < 128) :
    (ser u).length ≤ u.bytes.toList.length + UPDATE_BYTES_OVERHEAD ↔ u.byteOffset.toNat < 2 ^ 28 := by
  have h28 : (2 : Nat) ^ 28 = 128 ^ 4 := by decide
  rw [length_ser_update u hu, h28, ← varintLen_le_iff (by decide)]
  unfold UPDATE_BYTES_OVERHEAD
  omega

theorem length_ser_prepare_le (p : PrepareForUpdate) : (ser p).length ≤ 29 := by
  have hver := length_ser_version_le p.version
  have hlen := length_ser_uint32_le p.updateByteLen
  have hkey : (ser p.updateKey).length = 16 := Vector.length_toList
  have hports : (ser p.serverPorts).length = 1 := rfl
  have hsigned : (ser p.signed).length = 1 := rfl
  simp only [ser_prepare, List.length_append]
  omega

end SoftwareUpdate
end FlipFlop
