import MiniEthNode.Rust.HashMap
import MiniEthNode.Types.Primitive

namespace MiniEthNode
open Rust

/-- What the node takes from outside its own source: the hash function, the
signature library, the overflow checks of the build profile, and the order in
which hash maps keyed by an address happen to be iterated. -/
structure Host where
  keccak256 : Bytes → B256
  /-- Whether `Signature::from_slice` accepts the 64 bytes of `r` and `s`. -/
  signatureFromSlice : Bytes → Bool
  /-- The uncompressed point of `VerifyingKey::recover_from_prehash`. -/
  recoverFromPrehash : (prehash : B256) → (signature : Bytes) → (recoveryId : UInt8) → Option (FixedBytes 65)
  overflowChecks : Bool
  iteration : Iteration Address

/-- A host known by finitely many digests and recovered keys, with overflow checks on and
accounts iterated by ascending address. -/
def Host.ofGraph (digests : List (Bytes × B256)) (recoveries : List ((B256 × Bytes × UInt8) × FixedBytes 65)) :
    Host where
  keccak256 bytes := (digests.lookup bytes).getD FixedBytes.zero
  signatureFromSlice signature := recoveries.any fun known => known.1.2.1 == signature
  recoverFromPrehash prehash signature recoveryId := recoveries.lookup (prehash, signature, recoveryId)
  overflowChecks := true
  iteration := Iteration.ascending (fun address => beValue address.bytes) FixedBytes.beValue_injective

/-- The same host, known by more digests and recovered keys. -/
def Host.extend (host : Host) (digests : List (Bytes × B256))
    (recoveries : List ((B256 × Bytes × UInt8) × FixedBytes 65)) : Host where
  keccak256 bytes := (digests.lookup bytes).getD (host.keccak256 bytes)
  signatureFromSlice signature :=
    recoveries.any (fun known => known.1.2.1 == signature) || host.signatureFromSlice signature
  recoverFromPrehash prehash signature recoveryId :=
    (recoveries.lookup (prehash, signature, recoveryId)).or (host.recoverFromPrehash prehash signature recoveryId)
  overflowChecks := host.overflowChecks
  iteration := host.iteration

end MiniEthNode
