import MiniEthNode.RlpCodec.Signing

namespace MiniEthNode
open Rust

/-- The signing half of the signature library. -/
structure Signer where
  /-- Whether `SigningKey::from_bytes` accepts a key. -/
  signingKeyFromBytes : FixedBytes 32 → Bool
  /-- The bytes of `r` and `s` and the recovery id of `sign_prehash_recoverable`. -/
  signPrehashRecoverable : FixedBytes 32 → (prehash : B256) → Option (FixedBytes 64 × UInt8)

/-- The `v` of a signature: a legacy one carries the chain id. -/
def signatureV (host : Host) (transaction : Transaction) (recoveryId : UInt8) (chainId : U64) :
    Outcome SigningError U64 :=
  let recoveryIdByte := BitVec.ofNat 64 recoveryId.toNat
  match transaction with
  | .legacy .. => do
    let doubled ← Outcome.okOr (checkedMul chainId 2) .invalidSignature
    let sum ← add host.overflowChecks recoveryIdByte doubled
    add host.overflowChecks sum 35
  | .eip1559 .. | .eip4844 .. => .ok recoveryIdByte

def sign (host : Host) (signer : Signer) (transaction : Transaction) (privateKeyBytes : Bytes) (chainId : U64) :
    Outcome SigningError SignedTransaction := do
  let payload ← signingPayload transaction chainId
  let hashBytes := host.keccak256 payload
  let keyArray ← (FixedBytes.tryFrom privateKeyBytes).mapErr fun _ => .invalidPrivateKey
  if signer.signingKeyFromBytes keyArray then do
    let (signature, recoveryId) ← Outcome.okOr (signer.signPrehashRecoverable keyArray hashBytes) .signingFailed
    let rSlice ← sliceTo signature.bytes 32
    let r ← (FixedBytes.tryFrom rSlice).mapErr fun _ => .invalidSignature
    let sSlice ← sliceFrom signature.bytes 32
    let s ← (FixedBytes.tryFrom sSlice).mapErr fun _ => .invalidSignature
    let v ← signatureV host transaction recoveryId chainId
    .ok ⟨transaction, v, r, s⟩
  else
    .err .invalidPrivateKey

/-- The address of an uncompressed public key. -/
def addressOf (host : Host) (publicKey : FixedBytes 65) : Address :=
  ⟨(host.keccak256 (publicKey.bytes.drop 1)).bytes.drop 12, by rw [List.length_drop, (host.keccak256 _).length_eq]⟩

/-- What the library promises for a key: what it signs is recovered as the public key. -/
def Signer.Inverts (host : Host) (signer : Signer) (key : FixedBytes 32) (publicKey : FixedBytes 65) : Prop :=
  ∀ prehash signature recoveryId, signer.signPrehashRecoverable key prehash = some (signature, recoveryId) →
    recoveryId.toNat ≤ 1 ∧ host.signatureFromSlice signature.bytes = true ∧
      host.recoverFromPrehash prehash signature.bytes recoveryId = some publicKey

/-- A signer known by finitely many signatures. -/
def Signer.ofGraph (signatures : List ((FixedBytes 32 × B256) × (FixedBytes 64 × UInt8))) : Signer where
  signingKeyFromBytes key := signatures.any fun known => known.1.1 == key
  signPrehashRecoverable key prehash := signatures.lookup (key, prehash)

theorem Signer.ofGraph_inverts {host : Host} {signatures : List ((FixedBytes 32 × B256) × (FixedBytes 64 × UInt8))}
    {key : FixedBytes 32} {publicKey : FixedBytes 65}
    (known : ∀ entry ∈ signatures, entry.1.1 = key → entry.2.2.toNat ≤ 1 ∧
      host.signatureFromSlice entry.2.1.bytes = true ∧
      host.recoverFromPrehash entry.1.2 entry.2.1.bytes entry.2.2 = some publicKey) :
    (Signer.ofGraph signatures).Inverts host key publicKey := by
  intro prehash signature recoveryId produced
  obtain ⟨before, after, listed, _⟩ := List.lookup_eq_some_iff.mp produced
  exact known ((key, prehash), signature, recoveryId) (by rw [listed]; simp) rfl

/-- All that a successful call of `sign` has done. -/
theorem sign_ok {host : Host} {signer : Signer} {transaction : Transaction} {privateKeyBytes : Bytes} {chainId : U64}
    {signed : SignedTransaction} (ran : sign host signer transaction privateKeyBytes chainId = .ok signed) :
    ∃ payload key signature recoveryId, signingPayload transaction chainId = .ok payload ∧
      key.bytes = privateKeyBytes ∧
      signer.signPrehashRecoverable key (host.keccak256 payload) = some (signature, recoveryId) ∧
      signed.r.bytes ++ signed.s.bytes = signature.bytes ∧
      signatureV host transaction recoveryId chainId = .ok signed.v ∧ signed.transaction = transaction := by
  obtain ⟨payload, spelled, ran⟩ := Outcome.bind_eq_ok.mp ran
  obtain ⟨key, made, ran⟩ := Outcome.bind_eq_ok.mp ran
  split at ran
  · obtain ⟨⟨signature, recoveryId⟩, produced, ran⟩ := Outcome.bind_eq_ok.mp ran
    have length := signature.length_eq
    simp only [sliceTo_ok (ε := SigningError) (show 32 ≤ signature.bytes.length by omega),
      sliceFrom_ok (ε := SigningError) (show 32 ≤ signature.bytes.length by omega), Outcome.ok_bind] at ran
    obtain ⟨r, first, ran⟩ := Outcome.bind_eq_ok.mp ran
    obtain ⟨s, second, ran⟩ := Outcome.bind_eq_ok.mp ran
    obtain ⟨v, carried, ran⟩ := Outcome.bind_eq_ok.mp ran
    cases ran
    refine ⟨payload, key, signature, recoveryId, spelled, FixedBytes.tryFrom_eq_ok (Outcome.mapErr_eq_ok.mp made),
      Outcome.okOr_eq_ok.mp produced, ?_, carried, rfl⟩
    rw [FixedBytes.tryFrom_eq_ok (Outcome.mapErr_eq_ok.mp first), FixedBytes.tryFrom_eq_ok (Outcome.mapErr_eq_ok.mp second),
      List.take_append_drop]
  · cases ran

/-- A call with an accepted key for which the library produces a signature. -/
theorem sign_of_signature {host : Host} {signer : Signer} {transaction : Transaction} {key : FixedBytes 32}
    {chainId : U64} {payload : Bytes} {signature : FixedBytes 64} {recoveryId : UInt8}
    (spelled : signingPayload transaction chainId = .ok payload) (valid : signer.signingKeyFromBytes key = true)
    (produced : signer.signPrehashRecoverable key (host.keccak256 payload) = some (signature, recoveryId)) :
    ∃ r s : B256, r.bytes ++ s.bytes = signature.bytes ∧ sign host signer transaction key.bytes chainId =
      signatureV host transaction recoveryId chainId >>= fun v => .ok ⟨transaction, v, r, s⟩ := by
  have length := signature.length_eq
  obtain ⟨r, atR⟩ : ∃ r : B256, r.bytes = signature.bytes.take 32 := ⟨⟨_, by simp [length]⟩, rfl⟩
  obtain ⟨s, atS⟩ : ∃ s : B256, s.bytes = signature.bytes.drop 32 := ⟨⟨_, by simp [length]⟩, rfl⟩
  refine ⟨r, s, by rw [atR, atS, List.take_append_drop], ?_⟩
  rw [sign, spelled, Outcome.ok_bind, key.tryFrom_bytes, Outcome.mapErr_ok, Outcome.ok_bind, if_pos valid, produced,
    Outcome.okOr_some, Outcome.ok_bind]
  simp only [sliceTo_ok (ε := SigningError) (show 32 ≤ signature.bytes.length by omega),
    sliceFrom_ok (ε := SigningError) (show 32 ≤ signature.bytes.length by omega), Outcome.ok_bind, ← atR, ← atS,
    FixedBytes.tryFrom_bytes, Outcome.mapErr_ok]

/-- The library has nothing to sign with for this payload. -/
theorem sign_of_no_signature {host : Host} {signer : Signer} {transaction : Transaction} {key : FixedBytes 32}
    {chainId : U64} {payload : Bytes} (spelled : signingPayload transaction chainId = .ok payload)
    (valid : signer.signingKeyFromBytes key = true)
    (refused : signer.signPrehashRecoverable key (host.keccak256 payload) = none) :
    sign host signer transaction key.bytes chainId = .err .signingFailed := by
  rw [sign, spelled, Outcome.ok_bind, key.tryFrom_bytes, Outcome.mapErr_ok, Outcome.ok_bind, if_pos valid, refused,
    Outcome.okOr_none, Outcome.err_bind]

section ChainId

/-- The `v` of a legacy signature does not fit into 64 bits, although twice the chain id does: the
product is checked, and the two sums after it are not. -/
def VOverflows (transaction : Transaction) (recoveryId : UInt8) (chainId : U64) : Prop :=
  match transaction with
  | .legacy .. => 2 * chainId.toNat < 2 ^ 64 ∧ 2 ^ 64 ≤ recoveryId.toNat + 2 * chainId.toNat + 35
  | .eip1559 .. | .eip4844 .. => False

instance (transaction : Transaction) (recoveryId : UInt8) (chainId : U64) :
    Decidable (VOverflows transaction recoveryId chainId) :=
  match transaction with
  | .legacy .. => inferInstanceAs (Decidable (_ ∧ _))
  | .eip1559 .. => inferInstanceAs (Decidable False)
  | .eip4844 .. => inferInstanceAs (Decidable False)

variable {host : Host} {transaction : Transaction} {recoveryId : UInt8} {chainId : U64}

theorem toNat_recoveryId (small : recoveryId.toNat ≤ 1) :
    (BitVec.ofNat 64 recoveryId.toNat).toNat = recoveryId.toNat := by
  rw [BitVec.toNat_ofNat]
  omega

/-- All that a legacy `v` can come from. -/
theorem signatureV_legacy {nonce : U64} {gasPrice : U128} {gasLimit : U64} {toAddress : Option Address}
    {value : U128} {data : Bytes} {v : U64} (small : recoveryId.toNat ≤ 1)
    (carried : signatureV host (.legacy nonce gasPrice gasLimit toAddress value data) recoveryId chainId = .ok v) :
    2 * chainId.toNat < 2 ^ 64 ∧ v.toNat = (recoveryId.toNat + 2 * chainId.toNat + 35) % 2 ^ 64 := by
  obtain ⟨doubled, product, carried⟩ := Outcome.bind_eq_ok.mp carried
  obtain ⟨sum, first, second⟩ := Outcome.bind_eq_ok.mp carried
  have productValue := checkedMul_eq_some.mp (Outcome.okOr_eq_ok.mp product)
  change chainId.toNat * 2 = _ at productValue
  have bound := doubled.isLt
  obtain rfl := add_eq_ok first
  rw [add_eq_ok second, BitVec.toNat_add, BitVec.toNat_add, toNat_recoveryId small]
  change _ ∧ (_ + 35) % _ = _
  omega

theorem signatureV_panic_iff (small : recoveryId.toNat ≤ 1) :
    signatureV host transaction recoveryId chainId = .panic ↔
      host.overflowChecks = true ∧ VOverflows transaction recoveryId chainId := by
  cases transaction with
  | eip1559 => simp [signatureV, VOverflows]
  | eip4844 => simp [signatureV, VOverflows]
  | legacy =>
    simp only [signatureV, VOverflows]
    cases product : checkedMul chainId 2 with
    | none =>
      rw [checkedMul_eq_none] at product
      change _ ≤ chainId.toNat * 2 at product
      simp only [Outcome.okOr_none, Outcome.err_bind, reduceCtorEq, false_iff]
      omega
    | some doubled =>
      rw [checkedMul_eq_some] at product
      change chainId.toNat * 2 = _ at product
      have bound := doubled.isLt
      -- the first sum fits, since twice the chain id is even
      have fits : (BitVec.ofNat 64 recoveryId.toNat).toNat + doubled.toNat < 2 ^ 64 := by
        rw [toNat_recoveryId small]
        omega
      rw [Outcome.okOr_some, Outcome.ok_bind, add_of_fits fun _ => fits, Outcome.ok_bind, add_eq_panic_iff,
        BitVec.toNat_add, Nat.mod_eq_of_lt fits, toNat_recoveryId small]
      change (_ ∧ _ ≤ _ + 35) ↔ _
      constructor <;> rintro ⟨checked, large⟩ <;> exact ⟨checked, by omega⟩

/-- An error comes from the checked product. -/
theorem signatureV_err {error : SigningError}
    (failed : signatureV host transaction recoveryId chainId = .err error) :
    ¬ VOverflows transaction recoveryId chainId := by
  cases transaction with
  | eip1559 => cases failed
  | eip4844 => cases failed
  | legacy =>
    rcases Outcome.bind_eq_err.mp failed with large | ⟨doubled, _, failed⟩
    · have product := checkedMul_eq_none.mp (Outcome.okOr_eq_err.mp large).1
      change _ ≤ chainId.toNat * 2 at product
      rintro ⟨even, _⟩
      omega
    · rcases Outcome.bind_eq_err.mp failed with first | ⟨_, _, second⟩
      · exact absurd first add_ne_err
      · exact absurd second add_ne_err

/-- The recovery id is read back from `v` exactly if `v` has room for it. -/
theorem recoveryIdByte_signatureV {signed : SignedTransaction} (small : recoveryId.toNat ≤ 1)
    (carried : signatureV host signed.transaction recoveryId chainId = .ok signed.v) :
    recoveryIdByte signed chainId =
      if VOverflows signed.transaction recoveryId chainId then .err .invalidSignature
      else .ok (BitVec.ofNat 64 recoveryId.toNat) := by
  obtain ⟨transaction, v, r, s⟩ := signed
  cases transaction with
  | eip1559 =>
    cases carried
    rfl
  | eip4844 =>
    cases carried
    rfl
  | legacy nonce gasPrice gasLimit toAddress amount data =>
    obtain ⟨even, value⟩ := signatureV_legacy small carried
    obtain ⟨doubled, product⟩ : ∃ doubled, checkedMul chainId 2 = some doubled :=
      ⟨_, if_pos (by change chainId.toNat * 2 < _; omega)⟩
    have productValue := checkedMul_eq_some.mp product
    change chainId.toNat * 2 = _ at productValue
    change v.toNat = _ at value
    by_cases overflow : VOverflows (.legacy nonce gasPrice gasLimit toAddress amount data) recoveryId chainId
    · -- the sum has wrapped around, below twice the chain id
      obtain ⟨_, large⟩ := id overflow
      have below : checkedSub v doubled = none := checkedSub_eq_none.mpr (by omega)
      rw [if_pos overflow, recoveryIdByte, product, Outcome.okOr_some, Outcome.ok_bind, below, Option.bind_none,
        Outcome.okOr_none]
    · have fits : ¬ (_ ∧ _) := overflow
      rw [if_neg overflow, recoveryIdByte, product, Outcome.okOr_some, Outcome.ok_bind]
      obtain ⟨above, difference⟩ : ∃ above, checkedSub v doubled = some above := ⟨_, if_pos (by omega)⟩
      have aboveValue := checkedSub_eq_some.mp difference
      have last : checkedSub above 35 = some (BitVec.ofNat 64 recoveryId.toNat) := by
        rw [checkedSub_eq_some, toNat_recoveryId small]
        change recoveryId.toNat + 35 = _
        omega
      rw [difference, Option.bind_some, last, Outcome.okOr_some]

/-- What recovery makes of a signature that the library has produced. -/
theorem recoverSender_signed {signer : Signer} {key : FixedBytes 32} {publicKey : FixedBytes 65}
    {signed : SignedTransaction} {payload : Bytes} {signature : FixedBytes 64}
    (inverts : signer.Inverts host key publicKey) (spelled : signingPayload signed.transaction chainId = .ok payload)
    (produced : signer.signPrehashRecoverable key (host.keccak256 payload) = some (signature, recoveryId))
    (halves : signed.r.bytes ++ signed.s.bytes = signature.bytes)
    (carried : signatureV host signed.transaction recoveryId chainId = .ok signed.v) :
    recoverSender host signed chainId =
      if VOverflows signed.transaction recoveryId chainId then .err .invalidSignature
      else .ok (addressOf host publicKey) := by
  obtain ⟨small, accepted, recovered⟩ := inverts _ _ _ produced
  rw [recoverSender, spelled, Outcome.ok_bind, recoveryIdByte_signatureV small carried]
  split
  · rw [Outcome.err_bind]
  · have within : ¬ BitVec.ofNat 64 recoveryId.toNat > 1 := by
      rw [gt_iff_lt, BitVec.lt_def, toNat_recoveryId small]
      exact Nat.not_lt.mpr small
    rw [Outcome.ok_bind, if_neg within, halves, if_pos accepted, toNat_recoveryId small, UInt8.ofNat_toNat, recovered,
      Outcome.okOr_some, Outcome.ok_bind]
    exact Outcome.mapErr_eq_ok.mpr (addressOf host publicKey).tryFrom_bytes

end ChainId

/-- What a key signs for a chain is recovered as the address of the key. -/
theorem recoverSender_sign {host : Host} {signer : Signer} {key : FixedBytes 32} {publicKey : FixedBytes 65}
    {transaction : Transaction} {chainId : U64} {signed : SignedTransaction}
    (inverts : signer.Inverts host key publicKey) (room : 2 * chainId.toNat + 36 < 2 ^ 64)
    (ran : sign host signer transaction key.bytes chainId = .ok signed) :
    recoverSender host signed chainId = .ok (addressOf host publicKey) := by
  obtain ⟨payload, key', signature, recoveryId, spelled, same, produced, halves, carried, rfl⟩ := sign_ok ran
  obtain rfl := FixedBytes.ext same
  have small := (inverts _ _ _ produced).1
  rw [recoverSender_signed inverts spelled produced halves carried, if_neg]
  unfold VOverflows
  split
  · omega
  · exact id
  · exact id

/-- A key that the library accepts and can sign some transactions with, and that is recovered from what it signs. -/
structure Signer.Serves (host : Host) (signer : Signer) (chainId : U64) (asked : Transaction → Prop)
    (key : FixedBytes 32) (publicKey : FixedBytes 65) : Prop where
  valid : signer.signingKeyFromBytes key = true
  signs : ∀ transaction payload, asked transaction → signingPayload transaction chainId = .ok payload →
    (signer.signPrehashRecoverable key (host.keccak256 payload)).isSome = true
  inverts : signer.Inverts host key publicKey

/-- Such a key signs these transactions for a chain that `v` has room for. -/
theorem Signer.Serves.sign {host : Host} {signer : Signer} {key : FixedBytes 32} {publicKey : FixedBytes 65}
    {chainId : U64} {asked : Transaction → Prop} (serves : signer.Serves host chainId asked key publicKey)
    (room : 2 * chainId.toNat + 36 < 2 ^ 64) {transaction : Transaction} (asks : asked transaction) :
    ∃ signed, MiniEthNode.sign host signer transaction key.bytes chainId = .ok signed := by
  obtain ⟨payload, spelled⟩ := signingPayload_ok transaction chainId
  obtain ⟨⟨signature, recoveryId⟩, produced⟩ := Option.isSome_iff_exists.mp (serves.signs _ payload asks spelled)
  have small := (serves.inverts _ _ _ produced).1
  obtain ⟨r, s, _, signs⟩ := sign_of_signature spelled serves.valid produced
  cases carried : signatureV host transaction recoveryId chainId with
  | ok v =>
    rw [carried, Outcome.ok_bind] at signs
    exact ⟨_, signs⟩
  | err error =>
    cases transaction with
    | eip1559 => cases carried
    | eip4844 => cases carried
    | legacy =>
      rcases Outcome.bind_eq_err.mp carried with large | ⟨doubled, _, failed⟩
      · have product := checkedMul_eq_none.mp (Outcome.okOr_eq_err.mp large).1
        change _ ≤ chainId.toNat * 2 at product
        omega
      · rcases Outcome.bind_eq_err.mp failed with first | ⟨_, _, second⟩
        · exact absurd first add_ne_err
        · exact absurd second add_ne_err
  | panic =>
    obtain ⟨_, overflows⟩ := (signatureV_panic_iff small).mp carried
    unfold VOverflows at overflows
    split at overflows
    · omega
    · exact overflows.elim
    · exact overflows.elim

/-- A key signs without an overflow, and recovery finds its address, exactly if `v` has room for the
chain id. In a build without overflow checks `v` wraps around, and recovery refuses the signature. -/
theorem sign_recover_agree_iff {host : Host} {signer : Signer} {key : FixedBytes 32} {publicKey : FixedBytes 65}
    {transaction : Transaction} {chainId : U64} (valid : signer.signingKeyFromBytes key = true)
    (inverts : signer.Inverts host key publicKey) :
    (sign host signer transaction key.bytes chainId ≠ .panic ∧
      ∀ signed, sign host signer transaction key.bytes chainId = .ok signed →
        recoverSender host signed chainId = .ok (addressOf host publicKey)) ↔
    ∀ payload signature recoveryId, signingPayload transaction chainId = .ok payload →
      signer.signPrehashRecoverable key (host.keccak256 payload) = some (signature, recoveryId) →
        ¬ VOverflows transaction recoveryId chainId := by
  constructor
  · rintro ⟨returns, recovers⟩ payload signature recoveryId spelled produced overflow
    have small := (inverts _ _ _ produced).1
    obtain ⟨r, s, halves, ran⟩ := sign_of_signature spelled valid produced
    cases carried : signatureV host transaction recoveryId chainId with
    | panic => exact returns (by rw [ran, carried, Outcome.panic_bind])
    | err error => exact signatureV_err carried overflow
    | ok v =>
      rw [carried, Outcome.ok_bind] at ran
      have found := recovers _ ran
      have refused : recoverSender host ⟨transaction, v, r, s⟩ chainId = .err .invalidSignature :=
        (recoverSender_signed inverts spelled produced halves carried).trans (if_pos overflow)
      rw [refused] at found
      cases found
  · intro room
    refine ⟨fun stopped => ?_, fun signed ran => ?_⟩
    · obtain ⟨payload, spelled⟩ := signingPayload_ok transaction chainId
      cases produced : signer.signPrehashRecoverable key (host.keccak256 payload) with
      | none =>
        rw [sign_of_no_signature spelled valid produced] at stopped
        cases stopped
      | some result =>
        obtain ⟨signature, recoveryId⟩ := result
        obtain ⟨r, s, _, ran⟩ := sign_of_signature spelled valid produced
        rw [ran, Outcome.bind_eq_panic] at stopped
        rcases stopped with overflow | ⟨v, _, stopped⟩
        · have small := (inverts _ _ _ produced).1
          exact room payload signature recoveryId spelled produced ((signatureV_panic_iff small).mp overflow).2
        · cases stopped
    · obtain ⟨payload, key', signature, recoveryId, spelled, same, produced, halves, carried, rfl⟩ := sign_ok ran
      obtain rfl := FixedBytes.ext same
      rw [recoverSender_signed inverts spelled produced halves carried,
        if_neg (room payload signature recoveryId spelled produced)]

section Sample

/-- The public key of the private key 1. -/
def plainPublicKey : FixedBytes 65 :=
  .ofNat (0x0479be667ef9dcbbac55a06295ce870b07029bfcdb2dce28d959f2815b16f81798 <<< 256 +
    0x483ada7726a3c4655da4fbfc0e1108a8fd17b448a68554199c47d08ffb10d4b8)

/-- What the key signs: one transfer, for the chain ids 1 and 2 ^ 63 - 17. -/
def plainSignatures : List ((FixedBytes 32 × B256) × (FixedBytes 64 × UInt8)) := [
  ((.ofNat 1, .ofNat 0x2cb27aa9fa02667106cb1a1e68d7d2e4701262a24b2628cda83f5b3b98e84b21),
    (.ofNat (0x1d98488ffda2e5308b3561babb3d82603279821d5c82b27f849c61def3864999 <<< 256 +
      0x4fda405e1b9cd224c418afd1058d551a85b264f4db5a647ef1caec14db950612), 1)),
  ((.ofNat 1, .ofNat 0xac56a8d34c4f97037bf1c68d56c3e6d7635441e0c046025cb75d716eb865bb61),
    (.ofNat (0xed8058fd2e394a0d39ead0b4f2603b6585c53608c2870b7715fd4f52cfef1050 <<< 256 +
      0x535e45c88d0b3f55007f606f88d94114c4efc650f450eb0d3c4522721e89598e), 0))]

def plainSigner : Signer := .ofGraph plainSignatures

def plainHost (overflowChecks : Bool) : Host :=
  { Host.ofGraph [
      (toBeBytes 32 0xdf803c8252089400000000000000000000000000000000000000220780018080,
        .ofNat 0x2cb27aa9fa02667106cb1a1e68d7d2e4701262a24b2628cda83f5b3b98e84b21),
      (toBeBytes 40 0xe7803c8252089400000000000000000000000000000000000000220780887fffffffffffffef8080,
        .ofNat 0xac56a8d34c4f97037bf1c68d56c3e6d7635441e0c046025cb75d716eb865bb61),
      (toBeBytes 40 0x79be667ef9dcbbac55a06295ce870b07029bfcdb2dce28d959f2815b16f81798483ada7726a3c465 ++
          toBeBytes 24 0x5da4fbfc0e1108a8fd17b448a68554199c47d08ffb10d4b8,
        .ofNat 0xc0a6c424ac7157ae408398df7e5f4552091a69125d5dfcb7b8c2659029395bdf)]
      (plainSignatures.map fun ((_, prehash), signature, recoveryId) =>
        ((prehash, signature.bytes, recoveryId), plainPublicKey)) with
    overflowChecks := overflowChecks }

theorem plainSigner_inverts : plainSigner.Inverts (plainHost true) (.ofNat 1) plainPublicKey :=
  Signer.ofGraph_inverts (by decide +kernel)

def plainTransfer : Transaction := .legacy 0 60 21000 (some (.ofNat 0x22)) 7 []

theorem sign_recover_agree_iff_mainnet :
    sign (plainHost true) plainSigner plainTransfer (.ofNat 1 : FixedBytes 32).bytes 1 ≠ .panic ∧
      ∀ signed, sign (plainHost true) plainSigner plainTransfer (.ofNat 1 : FixedBytes 32).bytes 1 = .ok signed →
        recoverSender (plainHost true) signed 1 = .ok (.ofNat 0x7e5f4552091a69125d5dfcb7b8c2659029395bdf) := by
  have address : addressOf (plainHost true) plainPublicKey = .ofNat 0x7e5f4552091a69125d5dfcb7b8c2659029395bdf := by
    decide +kernel
  rw [← address]
  refine (sign_recover_agree_iff (by decide +kernel) plainSigner_inverts).mpr ?_
  intro payload signature recoveryId _ produced
  have small := (plainSigner_inverts _ _ _ produced).1
  rintro ⟨_, large⟩
  change 2 ^ 64 ≤ recoveryId.toNat + 2 * 1 + 35 at large
  omega

/-- For the chain id 2 ^ 63 - 17 the sum is 2 ^ 64 + 1: with overflow checks the call stops, and
without them `v` is 1, which recovery refuses. -/
theorem sign_overflows :
    sign (plainHost true) plainSigner plainTransfer (.ofNat 1 : FixedBytes 32).bytes 0x7fffffffffffffef = .panic ∧
    ∃ signed, sign (plainHost false) plainSigner plainTransfer (.ofNat 1 : FixedBytes 32).bytes
        0x7fffffffffffffef = .ok signed ∧ signed.v = 1 ∧
      recoverSender (plainHost false) signed 0x7fffffffffffffef = .err .invalidSignature := by
  refine ⟨by decide +kernel, ⟨plainTransfer, 1,
    .ofNat 0xed8058fd2e394a0d39ead0b4f2603b6585c53608c2870b7715fd4f52cfef1050,
    .ofNat 0x535e45c88d0b3f55007f606f88d94114c4efc650f450eb0d3c4522721e89598e⟩, ?_, rfl, ?_⟩
  · decide +kernel
  · decide +kernel

end Sample

end MiniEthNode
