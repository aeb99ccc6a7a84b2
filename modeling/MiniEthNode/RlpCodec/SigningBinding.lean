import MiniEthNode.RlpCodec.Decodable
import MiniEthNode.RlpCodec.Sign

namespace MiniEthNode
open Rust Rlp

theorem encodeTo_inj {a b : Option Address} (same : encodeTo a = encodeTo b) : a = b := by
  have read := decodeTo_toItem a
  change decodeTo (encodeTo a) = _ at read
  rw [same] at read
  exact (Outcome.ok.inj ((decodeTo_toItem b).symm.trans read)).symm

theorem legacyFields_inj {tx tx' : Transaction} {fields : List RlpItem} (first : legacyFields tx = .ok fields)
    (second : legacyFields tx' = .ok fields) : tx = tx' := by
  cases tx with
  | legacy nonce gasPrice gasLimit toAddress value data =>
    cases tx' with
    | legacy nonce' gasPrice' gasLimit' toAddress' value' data' =>
      have same := Outcome.ok.inj (first.trans second.symm)
      simp only [List.cons.injEq, and_true] at same
      obtain ⟨nonces, prices, limits, recipients, values, datas⟩ := same
      rw [toRlpItem_inj nonces, toRlpItem_inj prices, toRlpItem_inj limits, encodeTo_inj recipients,
        toRlpItem_inj values, toRlpItem_inj datas]
    | eip1559 => cases second
    | eip4844 => cases second
  | eip1559 => cases first
  | eip4844 => cases first

/-- The two typed layouts have different numbers of fields. -/
theorem typedFields_inj {tx tx' : Transaction} {fields : List RlpItem} (first : typedFields tx = .ok fields)
    (second : typedFields tx' = .ok fields) : tx = tx' := by
  have same := first.trans second.symm
  cases tx with
  | legacy => cases first
  | eip1559 =>
    cases tx' with
    | legacy => cases second
    | eip1559 =>
      simp only [typedFields, Outcome.ok.injEq, List.cons.injEq, Item.list.injEq, and_true] at same
      obtain ⟨nonces, priorities, fees, limits, recipients, values, datas, lists⟩ := same
      rw [toRlpItem_inj nonces, toRlpItem_inj priorities, toRlpItem_inj fees, toRlpItem_inj limits,
        encodeTo_inj recipients, toRlpItem_inj values, toRlpItem_inj datas, map_toRlpItem_inj lists]
    | eip4844 => simp [typedFields] at same
  | eip4844 =>
    cases tx' with
    | legacy => cases second
    | eip1559 => simp [typedFields] at same
    | eip4844 =>
      simp only [typedFields, Outcome.ok.injEq, List.cons.injEq, Item.list.injEq, and_true] at same
      obtain ⟨nonces, priorities, fees, limits, recipients, values, datas, lists, blobFees, blobs⟩ := same
      rw [toRlpItem_inj nonces, toRlpItem_inj priorities, toRlpItem_inj fees, toRlpItem_inj limits,
        encodeTo_inj recipients, toRlpItem_inj values, toRlpItem_inj datas, map_toRlpItem_inj lists,
        toRlpItem_inj blobFees, map_toRlpItem_inj blobs]

/-- What stands around the fields of a transaction: after those of a legacy one, and before and after
those of a typed one. -/
structure Layout where
  legacyTail : List RlpItem
  typedHead : List RlpItem
  typedTail : List RlpItem

/-- The two shapes of what is hashed. -/
def Layout.Lays (layout : Layout) (tx : Transaction) (bytes : Bytes) : Prop :=
  (∃ fields, legacyFields tx = .ok fields ∧ bytes = serialize (.list (fields ++ layout.legacyTail))) ∨
  ∃ fields txType, typedFields tx = .ok fields ∧ txType < 4 ∧
    bytes = txType :: serialize (.list (layout.typedHead ++ (fields ++ layout.typedTail)))

/-- A list does not start with a type byte. -/
theorem serialize_list_ne_typed {items : List RlpItem} {txType : UInt8} {rest : Bytes} (small : txType < 4)
    (bound : (serialize (.list items)).length < 2 ^ 64) : serialize (.list items) ≠ txType :: rest := by
  intro same
  obtain ⟨first, others, head, lower, _⟩ :=
    frame_head (show 192 ≤ 192 by decide) ((length_le_serialize_list items).trans_lt bound)
  rw [serialize, head, List.cons_append, List.cons.injEq] at same
  rw [same.1] at lower
  simp only [UInt8.lt_iff_toNat_lt, UInt8.reduceToNat] at small
  omega

/-- In two layouts of the same lengths, equal bytes come from one transaction, and what stands around
its fields is the same. -/
theorem Layout.Lays.inj {layout layout' : Layout} {tx tx' : Transaction} {bytes : Bytes}
    (first : layout.Lays tx bytes) (second : layout'.Lays tx' bytes) (bound : bytes.length < 2 ^ 64)
    (legacy : layout.legacyTail.length = layout'.legacyTail.length)
    (front : layout.typedHead.length = layout'.typedHead.length)
    (back : layout.typedTail.length = layout'.typedTail.length) :
    tx = tx' ∧ (layout.legacyTail = layout'.legacyTail ∨
      layout.typedHead = layout'.typedHead ∧ layout.typedTail = layout'.typedTail) := by
  rcases first with ⟨fields, spelled, rfl⟩ | ⟨fields, txType, spelled, small, rfl⟩
  · rcases second with ⟨fields', spelled', same⟩ | ⟨fields', txType, _, small, same⟩
    · have items := Item.list.inj (serialize_inj bound (same ▸ bound) same)
      obtain ⟨rfl, tails⟩ := List.append_inj' items legacy
      exact ⟨legacyFields_inj spelled spelled', .inl tails⟩
    · exact absurd same (serialize_list_ne_typed small bound)
  · rcases second with ⟨fields', _, same⟩ | ⟨fields', txType', spelled', _, same⟩
    · exact absurd same.symm (serialize_list_ne_typed small (same ▸ bound))
    · obtain ⟨_, same⟩ := List.cons.inj same
      rw [List.length_cons] at bound
      have shorter := Nat.lt_of_succ_lt bound
      have items := Item.list.inj (serialize_inj shorter (same ▸ shorter) same)
      obtain ⟨heads, rest⟩ := List.append_inj items front
      obtain ⟨rfl, tails⟩ := List.append_inj' rest back
      exact ⟨typedFields_inj spelled spelled', .inr ⟨heads, tails⟩⟩

/-- The chain id stands after the fields of a legacy transaction and before those of a typed one. -/
def signingLayout (chainId : U64) : Layout where
  legacyTail := [toRlpItem chainId, toRlpItem (0 : U64), toRlpItem (0 : U64)]
  typedHead := [toRlpItem chainId]
  typedTail := []

theorem signingPayload_lays {tx : Transaction} {chainId : U64} {payload : Bytes}
    (spelled : signingPayload tx chainId = .ok payload) : (signingLayout chainId).Lays tx payload := by
  cases tx with
  | legacy =>
    refine .inl ⟨_, rfl, ?_⟩
    simp only [signingPayload, legacyToEncodedBytes, legacyFields, Outcome.ok_bind, encode_eq, List.nil_append,
      Outcome.mapErr_ok, Outcome.ok.injEq] at spelled
    exact spelled.symm
  | eip1559 =>
    refine .inr ⟨_, 2, rfl, by decide, ?_⟩
    simp only [signingPayload, typedToEncodedBytes, typedFields, Transaction.txType, Outcome.ok_bind, encode_eq,
      Outcome.mapErr_ok, List.singleton_append, Outcome.ok.injEq] at spelled
    exact spelled.symm
  | eip4844 =>
    refine .inr ⟨_, 3, rfl, by decide, ?_⟩
    simp only [signingPayload, typedToEncodedBytes, typedFields, Transaction.txType, Outcome.ok_bind, encode_eq,
      Outcome.mapErr_ok, List.singleton_append, Outcome.ok.injEq] at spelled
    exact spelled.symm

theorem signingPayload_inj {tx tx' : Transaction} {chainId chainId' : U64} {payload : Bytes}
    (bound : payload.length < 2 ^ 64) (first : signingPayload tx chainId = .ok payload)
    (second : signingPayload tx' chainId' = .ok payload) : tx = tx' ∧ chainId = chainId' := by
  obtain ⟨transactions, tails | ⟨heads, _⟩⟩ :=
    (signingPayload_lays first).inj (signingPayload_lays second) bound (Eq.refl 3) (Eq.refl 1) (Eq.refl 0)
  · exact ⟨transactions, toRlpItem_inj (List.cons.inj tails).1⟩
  · exact ⟨transactions, toRlpItem_inj (List.cons.inj heads).1⟩

/-- A legacy signature that is accepted carries twice the chain id in `v`. -/
theorem recoverSender_legacy {host : Host} {nonce : U64} {gasPrice : U128} {gasLimit : U64}
    {toAddress : Option Address} {value : U128} {data : Bytes} {v chainId : U64} {r s : B256} {address : Address}
    (recovered : recoverSender host ⟨.legacy nonce gasPrice gasLimit toAddress value data, v, r, s⟩ chainId =
      .ok address) : v.toNat = 2 * chainId.toNat + 35 ∨ v.toNat = 2 * chainId.toNat + 36 := by
  obtain ⟨payload, _, recovered⟩ := Outcome.bind_eq_ok.mp recovered
  obtain ⟨recoveryId, carried, recovered⟩ := Outcome.bind_eq_ok.mp recovered
  obtain ⟨doubled, product, carried⟩ := Outcome.bind_eq_ok.mp carried
  rw [Outcome.okOr_eq_ok, checkedMul_eq_some] at product
  obtain ⟨above, difference, carried⟩ := Option.bind_eq_some_iff.mp (Outcome.okOr_eq_ok.mp carried)
  rw [checkedSub_eq_some] at difference carried
  split at recovered
  · cases recovered
  · rename_i atMost
    have small : recoveryId.toNat ≤ 1 := BitVec.not_lt.mp atMost
    change chainId.toNat * 2 = _ at product
    change recoveryId.toNat + 35 = _ at carried
    change above.toNat + _ = v.toNat at difference
    omega

/-- Equal payloads come from the same transaction on the same chain, and no legacy signature is
accepted on two chains. -/
theorem signing_binds :
    (∀ (tx tx' : Transaction) (chainId chainId' : U64) (payload : Bytes), payload.length < 2 ^ 64 →
      signingPayload tx chainId = .ok payload → signingPayload tx' chainId' = .ok payload →
        tx = tx' ∧ chainId = chainId') ∧
    ∀ (host : Host) (nonce : U64) (gasPrice : U128) (gasLimit : U64) (toAddress : Option Address) (value : U128)
      (data : Bytes) (v : U64) (r s : B256) (chainId chainId' : U64) (sender sender' : Address),
      recoverSender host ⟨.legacy nonce gasPrice gasLimit toAddress value data, v, r, s⟩ chainId = .ok sender →
      recoverSender host ⟨.legacy nonce gasPrice gasLimit toAddress value data, v, r, s⟩ chainId' = .ok sender' →
        chainId = chainId' := by
  refine ⟨fun tx tx' chainId chainId' payload bound => signingPayload_inj bound, ?_⟩
  intro host nonce gasPrice gasLimit toAddress value data v r s chainId chainId' sender sender' first second
  have here := recoverSender_legacy first
  have there := recoverSender_legacy second
  exact BitVec.eq_of_toNat_eq (by omega)

/-- The payload of a transfer on chain 1 is that of no other transaction and no other chain, and its
signature is accepted on no other chain. -/
theorem signing_binds_transfer :
    let payload := toBeBytes 32 0xdf803c8252089400000000000000000000000000000000000000220780018080
    let signed : SignedTransaction := ⟨plainTransfer, 38,
      .ofNat 0x1d98488ffda2e5308b3561babb3d82603279821d5c82b27f849c61def3864999,
      .ofNat 0x4fda405e1b9cd224c418afd1058d551a85b264f4db5a647ef1caec14db950612⟩
    signingPayload plainTransfer 1 = .ok payload ∧
      (∀ tx chainId, signingPayload tx chainId = .ok payload → tx = plainTransfer ∧ chainId = 1) ∧
    recoverSender (plainHost true) signed 1 = .ok (.ofNat 0x7e5f4552091a69125d5dfcb7b8c2659029395bdf) ∧
      ∀ chainId sender, recoverSender (plainHost true) signed chainId = .ok sender → chainId = 1 := by
  intro payload signed
  have spelled : signingPayload plainTransfer 1 = .ok payload := by decide +kernel
  have recovered : recoverSender (plainHost true) signed 1 =
      .ok (.ofNat 0x7e5f4552091a69125d5dfcb7b8c2659029395bdf) := by decide +kernel
  refine ⟨spelled, ?_, recovered, ?_⟩
  · intro tx chainId same
    exact signing_binds.1 tx plainTransfer chainId 1 payload (by decide) same spelled
  · intro chainId sender accepted
    exact signing_binds.2 _ _ _ _ _ _ _ _ _ _ chainId 1 sender _ accepted recovered

section Wire

/-- The bytes whose hash is the key of a signed transaction. -/
def wireBytes (signed : SignedTransaction) : Outcome RlpError Bytes :=
  match signed.transaction with
  | .legacy .. => legacyToWire signed
  | .eip1559 .. | .eip4844 .. => typedToWire signed

theorem signedTransactionHash_wireBytes (host : Host) {signed : SignedTransaction} {bytes : Bytes}
    (spelled : wireBytes signed = .ok bytes) : signedTransactionHash host signed = .ok (host.keccak256 bytes) := by
  obtain ⟨tx, v, r, s⟩ := signed
  cases tx <;>
    · simp only [wireBytes] at spelled
      rw [signedTransactionHash, spelled]
      rfl

/-- The three fields after those of the transaction. -/
def signatureFields (signed : SignedTransaction) : List RlpItem :=
  [toRlpItem signed.v, toRlpItem signed.r, toRlpItem signed.s]

theorem signedTransaction_eq {signed signed' : SignedTransaction}
    (transaction : signed.transaction = signed'.transaction)
    (fields : signatureFields signed = signatureFields signed') : signed = signed' := by
  obtain ⟨tx, v, r, s⟩ := signed
  obtain ⟨tx', v', r', s'⟩ := signed'
  simp only [signatureFields, List.cons.injEq, and_true] at fields
  obtain ⟨vs, rs, ss⟩ := fields
  cases transaction
  rw [toRlpItem_inj vs, toRlpItem_inj rs, toRlpItem_inj ss]

/-- The signature stands after the fields, and there is no chain id. -/
def wireLayout (signed : SignedTransaction) : Layout where
  legacyTail := signatureFields signed
  typedHead := []
  typedTail := signatureFields signed

theorem wireBytes_lays {signed : SignedTransaction} {bytes : Bytes} (spelled : wireBytes signed = .ok bytes) :
    (wireLayout signed).Lays signed.transaction bytes := by
  obtain ⟨tx, v, r, s⟩ := signed
  cases tx with
  | legacy =>
    refine .inl ⟨_, rfl, ?_⟩
    simp only [wireBytes, legacyToWire, legacyFields, Outcome.ok_bind, encode_eq, List.nil_append,
      Outcome.ok.injEq] at spelled
    exact spelled.symm
  | eip1559 =>
    refine .inr ⟨_, 2, rfl, by decide, ?_⟩
    simp only [wireBytes, typedToWire, typedFields, Transaction.txType, Outcome.ok_bind, encode_eq,
      Outcome.mapErr_ok, List.singleton_append, Outcome.ok.injEq] at spelled
    exact spelled.symm
  | eip4844 =>
    refine .inr ⟨_, 3, rfl, by decide, ?_⟩
    simp only [wireBytes, typedToWire, typedFields, Transaction.txType, Outcome.ok_bind, encode_eq,
      Outcome.mapErr_ok, List.singleton_append, Outcome.ok.injEq] at spelled
    exact spelled.symm

theorem wireBytes_inj {signed signed' : SignedTransaction} {bytes : Bytes} (bound : bytes.length < 2 ^ 64)
    (first : wireBytes signed = .ok bytes) (second : wireBytes signed' = .ok bytes) : signed = signed' := by
  obtain ⟨transactions, tails | ⟨_, tails⟩⟩ :=
    (wireBytes_lays first).inj (wireBytes_lays second) bound (Eq.refl 3) (Eq.refl 0) (Eq.refl 3)
  · exact signedTransaction_eq transactions tails
  · exact signedTransaction_eq transactions tails

/-- Equal wire forms come from the same signed transaction. So two different ones that are stored
under one key are a collision of the hash function. -/
theorem transaction_hash_binds :
    (∀ (signed signed' : SignedTransaction) (bytes : Bytes), bytes.length < 2 ^ 64 →
      wireBytes signed = .ok bytes → wireBytes signed' = .ok bytes → signed = signed') ∧
    ∀ (host : Host) (signed signed' : SignedTransaction) (bytes bytes' : Bytes) (hash : B256),
      wireBytes signed = .ok bytes → wireBytes signed' = .ok bytes' → bytes.length < 2 ^ 64 →
      signedTransactionHash host signed = .ok hash → signedTransactionHash host signed' = .ok hash →
      signed ≠ signed' → bytes ≠ bytes' ∧ host.keccak256 bytes = host.keccak256 bytes' := by
  constructor
  · intro signed signed' bytes bound
    exact wireBytes_inj bound
  · intro host signed signed' bytes bytes' hash first second bound hashed hashed' different
    rw [signedTransactionHash_wireBytes host first, Outcome.ok.injEq] at hashed
    rw [signedTransactionHash_wireBytes host second, Outcome.ok.injEq] at hashed'
    refine ⟨?_, hashed.trans hashed'.symm⟩
    rintro rfl
    exact different (wireBytes_inj bound first second)

/-- The wire form of a signed transfer is that of no other signed transaction. -/
theorem transaction_hash_binds_transfer :
    let signed : SignedTransaction :=
      ⟨.legacy 0 60 21 (some (.ofNat 0x2222222222222222222222222222222222222222)) 7 [], 37, .ofNat 5, .ofNat 6⟩
    let bytes :=
      toBeBytes 40 0xf85d803c15942222222222222222222222222222222222222222078025a000000000000000000000 ++
        toBeBytes 40 0x00000000000000000000000000000000000000000005a00000000000000000000000000000000000 ++
        toBeBytes 15 0x000000000000000000000000000006
    wireBytes signed = .ok bytes ∧ ∀ signed', wireBytes signed' = .ok bytes → signed' = signed := by
  intro signed bytes
  have spelled : wireBytes signed = .ok bytes := by decide +kernel
  exact ⟨spelled, fun signed' same => transaction_hash_binds.1 signed' signed bytes (by decide) same spelled⟩

end Wire

end MiniEthNode
