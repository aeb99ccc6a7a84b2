import MiniEthNode.Host
import MiniEthNode.RlpCodec.Traits

namespace MiniEthNode
open Rust Rlp

inductive SigningError where
  | invalidPrivateKey
  | signingFailed
  | recoveryFailed
  | invalidSignature
  | payloadEncoding (error : RlpError)
  deriving DecidableEq

def encodeTo : Option Address → RlpItem
  | some address => toRlpItem address
  | none => .bytes []

/-- The six fields of a legacy transaction, in the order of its wire and
signing formats. Every other type is `unreachable!`. -/
def legacyFields : Transaction → Outcome RlpError (List RlpItem)
  | .legacy nonce gasPrice gasLimit toAddress value data =>
    .ok [toRlpItem nonce, toRlpItem gasPrice, toRlpItem gasLimit, encodeTo toAddress, toRlpItem value,
      toRlpItem data]
  | _ => .panic

/-- The fields of a typed transaction, in the order of its wire and signing
formats. A legacy transaction is `unreachable!`. -/
def typedFields : Transaction → Outcome RlpError (List RlpItem)
  | .eip1559 nonce maxPriorityFeePerGas maxFeePerGas gasLimit toAddress value data accessList =>
    .ok [toRlpItem nonce, toRlpItem maxPriorityFeePerGas, toRlpItem maxFeePerGas, toRlpItem gasLimit,
      encodeTo toAddress, toRlpItem value, toRlpItem data, .list (accessList.map toRlpItem)]
  | .eip4844 nonce maxPriorityFeePerGas maxFeePerGas maxFeePerBlobGas gasLimit toAddress value data accessList
      blobVersionedHashes =>
    .ok [toRlpItem nonce, toRlpItem maxPriorityFeePerGas, toRlpItem maxFeePerGas, toRlpItem gasLimit,
      encodeTo toAddress, toRlpItem value, toRlpItem data, .list (accessList.map toRlpItem),
      toRlpItem maxFeePerBlobGas, .list (blobVersionedHashes.map toRlpItem)]
  | .legacy .. => .panic

def legacyToWire (signedTx : SignedTransaction) : Outcome RlpError Bytes := do
  let fields ← legacyFields signedTx.transaction
  encode (.list (fields ++ [toRlpItem signedTx.v, toRlpItem signedTx.r, toRlpItem signedTx.s])) []

def typedToWire (signedTx : SignedTransaction) : Outcome RlpError Bytes := do
  let fields ← typedFields signedTx.transaction
  let txType ← signedTx.transaction.txType.mapErr .transaction
  encode (.list (fields ++ [toRlpItem signedTx.v, toRlpItem signedTx.r, toRlpItem signedTx.s])) [txType]

def signedTransactionHash (host : Host) (signed : SignedTransaction) : Outcome SigningError B256 := do
  let bytes ← match signed.transaction with
    | .legacy .. => (legacyToWire signed).mapErr .payloadEncoding
    | .eip1559 .. | .eip4844 .. => (typedToWire signed).mapErr .payloadEncoding
  .ok (host.keccak256 bytes)

def hashHeader (host : Host) (header : Header) : Outcome RlpError B256 := do
  let buffer ← encode (toRlpItem header) []
  .ok (host.keccak256 buffer)

def legacyToEncodedBytes (tx : Transaction) (chainId : U64) : Outcome RlpError Bytes := do
  let fields ← legacyFields tx
  encode (.list (fields ++ [toRlpItem chainId, toRlpItem (0 : U64), toRlpItem (0 : U64)])) []

def typedToEncodedBytes (tx : Transaction) (chainId : U64) : Outcome RlpError Bytes := do
  let fields ← typedFields tx
  let txType ← tx.txType.mapErr .transaction
  encode (.list (toRlpItem chainId :: fields)) [txType]

/-- The bytes whose hash is signed. -/
def signingPayload (tx : Transaction) (chainId : U64) : Outcome SigningError Bytes :=
  match tx with
  | .legacy .. => (legacyToEncodedBytes tx chainId).mapErr .payloadEncoding
  | .eip1559 .. | .eip4844 .. => (typedToEncodedBytes tx chainId).mapErr .payloadEncoding

/-- The recovery id carried by `v`, which for a legacy transaction also carries the chain id. -/
def recoveryIdByte (signed : SignedTransaction) (chainId : U64) : Outcome SigningError U64 :=
  match signed.transaction with
  | .legacy .. => do
    let doubled ← Outcome.okOr (checkedMul chainId 2) .invalidSignature
    Outcome.okOr ((checkedSub signed.v doubled).bind fun x => checkedSub x 35) .invalidSignature
  | .eip1559 .. | .eip4844 .. => .ok signed.v

/-- `RecoveryId::try_from` accepts every byte up to 3, so it cannot fail after the check against 1. -/
def recoverSender (host : Host) (signed : SignedTransaction) (chainId : U64) : Outcome SigningError Address := do
  let payload ← signingPayload signed.transaction chainId
  let hashBytes := host.keccak256 payload
  let recoveryId ← recoveryIdByte signed chainId
  if recoveryId > 1 then
    .err .invalidSignature
  else
    let sigBytes := signed.r.bytes ++ signed.s.bytes
    if host.signatureFromSlice sigBytes then
      let publicKey ← Outcome.okOr
        (host.recoverFromPrehash hashBytes sigBytes (UInt8.ofNat recoveryId.toNat)) .recoveryFailed
      let publicKeyHash := host.keccak256 (publicKey.bytes.drop 1)
      (FixedBytes.tryFrom (publicKeyHash.bytes.drop 12)).mapErr fun _ => .recoveryFailed
    else
      .err .signingFailed

/-- The digest by which a block refers to its parent. -/
def headerHash (host : Host) (header : Header) : B256 := host.keccak256 (serialize (toRlpItem header))

theorem hashHeader_eq (host : Host) (header : Header) : hashHeader host header = .ok (headerHash host header) := by
  rw [hashHeader, encode_eq]
  rfl

/-- Every signed transaction of the three types has a wire form, hence a hash. -/
theorem signedTransactionHash_ok (host : Host) (signed : SignedTransaction) :
    ∃ hash, signedTransactionHash host signed = .ok hash := by
  obtain ⟨tx, v, r, s⟩ := signed
  cases tx <;>
    simp [signedTransactionHash, legacyToWire, typedToWire, legacyFields, typedFields, Transaction.txType,
      encode_eq]

/-- The key of a transaction in the index of the provider. -/
def transactionHash (host : Host) (signed : SignedTransaction) : B256 :=
  match signedTransactionHash host signed with
  | .ok hash => hash
  | _ => FixedBytes.zero

theorem signedTransactionHash_eq (host : Host) (signed : SignedTransaction) :
    signedTransactionHash host signed = .ok (transactionHash host signed) := by
  obtain ⟨hash, same⟩ := signedTransactionHash_ok host signed
  rw [transactionHash, same]

/-- There is something to sign for every transaction of the three types. -/
theorem signingPayload_ok (tx : Transaction) (chainId : U64) : ∃ payload, signingPayload tx chainId = .ok payload := by
  cases tx <;>
    simp [signingPayload, legacyToEncodedBytes, typedToEncodedBytes, legacyFields, typedFields, Transaction.txType,
      encode_eq]

theorem signingPayload_ne_panic (tx : Transaction) (chainId : U64) : signingPayload tx chainId ≠ .panic := by
  obtain ⟨payload, spelled⟩ := signingPayload_ok tx chainId
  rw [spelled]
  simp

theorem recoveryIdByte_ne_panic (signed : SignedTransaction) (chainId : U64) :
    recoveryIdByte signed chainId ≠ .panic := by
  unfold recoveryIdByte
  split
  · exact Outcome.bind_ne_panic Outcome.okOr_ne_panic fun _ _ => Outcome.okOr_ne_panic
  · simp
  · simp

theorem recoverSender_ne_panic (host : Host) (signed : SignedTransaction) (chainId : U64) :
    recoverSender host signed chainId ≠ .panic := by
  refine Outcome.bind_ne_panic (signingPayload_ne_panic _ _) fun payload _ =>
    Outcome.bind_ne_panic (recoveryIdByte_ne_panic _ _) fun recoveryId _ => ?_
  split
  · simp
  · dsimp only
    split
    · exact Outcome.bind_ne_panic Outcome.okOr_ne_panic fun publicKey _ =>
        Outcome.mapErr_ne_panic (FixedBytes.tryFrom_ne_panic _)
    · simp

end MiniEthNode
