import MiniEthNode.Execution.Provider
import MiniEthNode.RlpCodec.Sign

namespace MiniEthNode
open Rust

inductive BuilderError where
  | unknownSenderIndex (index : Nat)
  | missingAccountSnapshot (address : Address)
  | insufficientBalance (address : Address) (available required : U128)
  | overflow
  | hashing (error : RlpError)
  | execution (error : ExecutionError)
  | trie (error : TrieError)
  | signing (error : SigningError)
  deriving DecidableEq

structure TransactionSpec where
  senderIndex : Nat
  recipient : Address
  value : U128
  gasLimit : U64

structure BlockSpec where
  transactions : List TransactionSpec

structure AccountSnapshot where
  address : Address
  nonce : U64
  balance : U128
  deriving DecidableEq

structure BuilderState where
  signingKeys : List (FixedBytes 32)
  currentNumber : U64
  currentHash : B256
  genesisTimestamp : U64
  currentTimestamp : U64
  chainId : U64
  deriving DecidableEq

structure BlockBuilder where
  state : BuilderState
  genesisGasLimit : U64
  deriving DecidableEq

/-- A transaction that carries no data. -/
def Transaction.IsTransfer : Transaction → Prop
  | .legacy _ _ _ _ _ data => data = []
  | .eip1559 .. | .eip4844 .. => False

namespace BlockBuilder

def gasPrice : U128 := 1000000000

def new (chainId : U64) (genesisBlockHash : B256) (genesisTimestamp genesisGasLimit : U64)
    (signingKeys : List (FixedBytes 32)) : Outcome BuilderError BlockBuilder :=
  .ok ⟨⟨signingKeys, 0, genesisBlockHash, genesisTimestamp, genesisTimestamp, chainId⟩, genesisGasLimit⟩

def currentHead (builder : BlockBuilder) : U64 × B256 := (builder.state.currentNumber, builder.state.currentHash)

/-- The timestamp that belongs to a block number: twelve seconds a block. -/
def timestampAt (builder : BlockBuilder) (number : U64) : Outcome BuilderError U64 := do
  let timestampOffset ← Outcome.okOr (checkedMul number 12) .overflow
  Outcome.okOr (checkedAdd builder.state.genesisTimestamp timestampOffset) .overflow

/-- The three assignments that end `set_current_head` and `generate_block`. -/
def withHead (builder : BlockBuilder) (number : U64) (hash : B256) (timestamp : U64) : BlockBuilder :=
  { builder with state :=
    { builder.state with currentNumber := number, currentHash := hash, currentTimestamp := timestamp } }

def setCurrentHead (number : U64) (hash : B256) : Exec BlockBuilder BuilderError Unit := do
  let currentTimestamp ← Exec.read (·.timestampAt number)
  Exec.modify (·.withHead number hash currentTimestamp)

section Signing
variable (host : Host) (signer : Signer)

/-- The address of a key, found by signing a transaction that is thrown away. -/
def senderAddress (builder : BlockBuilder) (privateKey : FixedBytes 32) : Outcome BuilderError Address := do
  let transaction : Transaction := .legacy 0 gasPrice 21000 none 0 []
  let signedTransaction ← (sign host signer transaction privateKey.bytes builder.state.chainId).mapErr .signing
  (recoverSender host signedTransaction builder.state.chainId).mapErr .signing

def buildSignedTransaction (builder : BlockBuilder) (spec : TransactionSpec)
    (accountSnapshots : HashMap Address AccountSnapshot) : Outcome BuilderError SignedTransaction := do
  let privateKey ← Outcome.okOr builder.state.signingKeys[spec.senderIndex]? (.unknownSenderIndex spec.senderIndex)
  let sender ← builder.senderAddress host signer privateKey
  let snapshot ← Outcome.okOr (accountSnapshots.lookup sender) (.missingAccountSnapshot sender)
  let transaction : Transaction := .legacy snapshot.nonce gasPrice spec.gasLimit (some spec.recipient) spec.value []
  let maxCost ← transaction.maxCost.mapErr fun _ => .overflow
  if maxCost > snapshot.balance then
    .err (.insufficientBalance sender snapshot.balance maxCost)
  else
    (sign host signer transaction privateKey.bytes builder.state.chainId).mapErr .signing

/-- The loop of `generate_block`. -/
def buildTransactions (builder : BlockBuilder) (accountSnapshots : HashMap Address AccountSnapshot) :
    List TransactionSpec → U64 → List SignedTransaction → Outcome BuilderError (U64 × List SignedTransaction)
  | [], gasUsed, transactions => .ok (gasUsed, transactions)
  | transactionSpec :: rest, gasUsed, transactions => do
    let gasUsed ← Outcome.okOr (checkedAdd gasUsed transactionSpec.gasLimit) .overflow
    let transaction ← builder.buildSignedTransaction host signer transactionSpec accountSnapshots
    buildTransactions builder accountSnapshots rest gasUsed (transactions ++ [transaction])

def generateBlock (spec : BlockSpec) (accountSnapshots : HashMap Address AccountSnapshot) :
    Exec BlockBuilder BuilderError Block := do
  let builder ← Exec.get
  let (gasUsed, transactions) ← Exec.lift (builder.buildTransactions host signer accountSnapshots spec.transactions 0 [])
  let number ← Exec.lift (Outcome.okOr (checkedAdd builder.state.currentNumber 1) .overflow)
  let timestamp ← Exec.lift (builder.timestampAt number)
  let header : Header :=
    { parentHash := builder.state.currentHash
      beneficiary := FixedBytes.zero
      stateRoot := FixedBytes.zero
      transactionsRoot := FixedBytes.zero
      gasLimit := builder.genesisGasLimit
      gasUsed := gasUsed
      timestamp := timestamp
      number := number }
  let blockHash ← Exec.lift ((hashHeader host header).mapErr .hashing)
  Exec.modify (·.withHead number blockHash timestamp)
  pure ⟨header, transactions⟩

end Signing

/-- The sender of a transaction that is asked for, if its key is known and can sign. -/
def senderOf (host : Host) (signer : Signer) (builder : BlockBuilder) (spec : TransactionSpec) :
    Outcome BuilderError Address := do
  let privateKey ← Outcome.okOr builder.state.signingKeys[spec.senderIndex]? (.unknownSenderIndex spec.senderIndex)
  builder.senderAddress host signer privateKey

section Specification
variable {host : Host} {signer : Signer} {builder : BlockBuilder} {snapshots : HashMap Address AccountSnapshot}

theorem timestampAt_ok {number timestamp : U64} (computed : builder.timestampAt number = .ok timestamp) :
    timestamp.toNat = builder.state.genesisTimestamp.toNat + 12 * number.toNat := by
  obtain ⟨offset, product, sum⟩ := Outcome.bind_eq_ok.mp computed
  rw [Outcome.okOr_eq_ok, checkedMul_eq_some] at product
  rw [Outcome.okOr_eq_ok, checkedAdd_eq_some] at sum
  change number.toNat * 12 = _ at product
  omega

/-- A transaction that the builder has signed, and what it has checked before. -/
structure Built (host : Host) (signer : Signer) (builder : BlockBuilder) (snapshots : HashMap Address AccountSnapshot)
    (spec : TransactionSpec) (transaction : SignedTransaction) (key : FixedBytes 32) (sender : Address)
    (snapshot : AccountSnapshot) (cost : U128) : Prop where
  known : builder.state.signingKeys[spec.senderIndex]? = some key
  recovered : builder.senderAddress host signer key = .ok sender
  found : snapshots.lookup sender = some snapshot
  bounded : (Transaction.legacy snapshot.nonce gasPrice spec.gasLimit (some spec.recipient) spec.value []).maxCost =
    .ok cost
  covered : cost ≤ snapshot.balance
  signed : sign host signer (.legacy snapshot.nonce gasPrice spec.gasLimit (some spec.recipient) spec.value [])
    key.bytes builder.state.chainId = .ok transaction

theorem buildSignedTransaction_ok {spec : TransactionSpec} {signed : SignedTransaction}
    (ran : builder.buildSignedTransaction host signer spec snapshots = .ok signed) :
    ∃ key sender snapshot cost, Built host signer builder snapshots spec signed key sender snapshot cost := by
  obtain ⟨key, known, ran⟩ := Outcome.bind_eq_ok.mp ran
  obtain ⟨sender, recovered, ran⟩ := Outcome.bind_eq_ok.mp ran
  obtain ⟨snapshot, found, ran⟩ := Outcome.bind_eq_ok.mp ran
  obtain ⟨cost, bounded, ran⟩ := Outcome.bind_eq_ok.mp ran
  split at ran
  · cases ran
  · rename_i covered
    exact ⟨key, sender, snapshot, cost, Outcome.okOr_eq_ok.mp known, recovered, Outcome.okOr_eq_ok.mp found,
      Outcome.mapErr_eq_ok.mp bounded, BitVec.not_lt.mp covered, Outcome.mapErr_eq_ok.mp ran⟩

/-- The loop builds the transactions in order and adds up their gas limits. -/
theorem buildTransactions_ok {specs : List TransactionSpec} {gasUsed gasUsed' : U64}
    {transactions transactions' : List SignedTransaction}
    (ran : builder.buildTransactions host signer snapshots specs gasUsed transactions = .ok (gasUsed', transactions')) :
    ∃ built, transactions' = transactions ++ built ∧
      List.Forall₂ (fun spec signed => builder.buildSignedTransaction host signer spec snapshots = .ok signed)
        specs built ∧
      gasUsed'.toNat = gasUsed.toNat + (specs.map fun spec => spec.gasLimit.toNat).sum := by
  induction specs generalizing gasUsed transactions with
  | nil =>
    cases ran
    exact ⟨[], (List.append_nil _).symm, .nil, rfl⟩
  | cons spec rest ih =>
    obtain ⟨between, sum, ran⟩ := Outcome.bind_eq_ok.mp ran
    obtain ⟨signed, first, ran⟩ := Outcome.bind_eq_ok.mp ran
    rw [Outcome.okOr_eq_ok, checkedAdd_eq_some] at sum
    obtain ⟨built, rfl, later, total⟩ := ih ran
    refine ⟨signed :: built, by rw [List.append_assoc, List.singleton_append], .cons first later, ?_⟩
    rw [List.map_cons, List.sum_cons]
    omega

/-- A generated block, and the builder after it. -/
theorem generateBlock_ok {spec : BlockSpec} {block : Block} {builder' : BlockBuilder}
    (ran : generateBlock host signer spec snapshots builder = .ok (block, builder')) :
    List.Forall₂ (fun spec signed => builder.buildSignedTransaction host signer spec snapshots = .ok signed)
        spec.transactions block.transactions ∧
      block.header.parentHash = builder.state.currentHash ∧ block.header.gasLimit = builder.genesisGasLimit ∧
      block.header.gasUsed.toNat = (spec.transactions.map fun spec => spec.gasLimit.toNat).sum ∧
      builder.state.currentNumber.toNat + 1 = block.header.number.toNat ∧
      builder.timestampAt block.header.number = .ok block.header.timestamp ∧
      builder' = builder.withHead block.header.number (headerHash host block.header) block.header.timestamp := by
  rw [generateBlock, Exec.get_bind] at ran
  obtain ⟨⟨gasUsed, transactions⟩, built, ran⟩ := Exec.lift_bind_eq_ok.mp ran
  obtain ⟨number, next, ran⟩ := Exec.lift_bind_eq_ok.mp ran
  obtain ⟨timestamp, timed, ran⟩ := Exec.lift_bind_eq_ok.mp ran
  obtain ⟨blockHash, hashed, ran⟩ := Exec.lift_bind_eq_ok.mp ran
  cases (Outcome.mapErr_eq_ok.mp hashed).symm.trans (hashHeader_eq _ _)
  rw [Exec.modify_bind] at ran
  cases ran
  obtain ⟨signed, rfl, each, total⟩ := buildTransactions_ok built
  refine ⟨each, rfl, rfl, total.trans (Nat.zero_add _), ?_, timed, rfl⟩
  exact checkedAdd_eq_some.mp (Outcome.okOr_eq_ok.mp next)

theorem generateBlock_transfers {spec : BlockSpec} {block : Block} {builder' : BlockBuilder}
    (ran : generateBlock host signer spec snapshots builder = .ok (block, builder')) :
    ∀ signed ∈ block.transactions, signed.transaction.IsTransfer := by
  obtain ⟨each, -⟩ := generateBlock_ok ran
  generalize spec.transactions = specs, block.transactions = transactions at each
  clear ran
  induction each with
  | nil => simp
  | cons first _ ih =>
    obtain ⟨_, _, _, _, built⟩ := buildSignedTransaction_ok first
    obtain ⟨_, _, _, _, _, _, _, _, _, signed⟩ := sign_ok built.signed
    refine List.forall_mem_cons.mpr ⟨?_, ih⟩
    rw [signed]
    rfl

/-- The builder is written to at the end, when nothing can fail any more. -/
theorem generateBlock_err {spec : BlockSpec} {error : BuilderError} {builder' : BlockBuilder}
    (failed : generateBlock host signer spec snapshots builder = .err (error, builder')) : builder' = builder := by
  rw [generateBlock, Exec.get_bind] at failed
  obtain ⟨_, rfl⟩ | ⟨⟨gasUsed, transactions⟩, _, failed⟩ := Exec.lift_bind_eq_err.mp failed
  · rfl
  obtain ⟨_, rfl⟩ | ⟨number, _, failed⟩ := Exec.lift_bind_eq_err.mp failed
  · rfl
  obtain ⟨_, rfl⟩ | ⟨timestamp, _, failed⟩ := Exec.lift_bind_eq_err.mp failed
  · rfl
  obtain ⟨_, rfl⟩ | ⟨blockHash, _, failed⟩ := Exec.lift_bind_eq_err.mp failed
  · rfl
  cases failed

theorem exists_checkedAdd {w : Nat} {a b : BitVec w} (fits : a.toNat + b.toNat < 2 ^ w) :
    ∃ c, checkedAdd a b = some c ∧ c.toNat = a.toNat + b.toNat :=
  ⟨a + b, checkedAdd_eq_some.mpr (by rw [BitVec.toNat_add, Nat.mod_eq_of_lt fits]),
    by rw [BitVec.toNat_add, Nat.mod_eq_of_lt fits]⟩

theorem timestampAt_of_fits (builder : BlockBuilder) (number : U64)
    (fits : builder.state.genesisTimestamp.toNat + 12 * number.toNat < 2 ^ 64) :
    ∃ timestamp, builder.timestampAt number = .ok timestamp := by
  have product : checkedMul number 12 = some (number * 12) :=
    checkedMul_eq_some.mpr (by
      rw [BitVec.toNat_mul]
      exact (Nat.mod_eq_of_lt (by change number.toNat * 12 < _; omega)).symm)
  have offset : number.toNat * 12 = (number * 12).toNat := checkedMul_eq_some.mp product
  obtain ⟨timestamp, sum, _⟩ := exists_checkedAdd (a := builder.state.genesisTimestamp) (b := number * 12) (by omega)
  exact ⟨timestamp, Outcome.bind_eq_ok.mpr ⟨_, Outcome.okOr_eq_ok.mpr product, Outcome.okOr_eq_ok.mpr sum⟩⟩

theorem buildTransactions_of_each {specs : List TransactionSpec}
    (each : ∀ spec ∈ specs, ∃ signed, builder.buildSignedTransaction host signer spec snapshots = .ok signed)
    (gasUsed : U64) (fits : gasUsed.toNat + (specs.map fun spec => spec.gasLimit.toNat).sum < 2 ^ 64)
    (transactions : List SignedTransaction) :
    ∃ result, builder.buildTransactions host signer snapshots specs gasUsed transactions = .ok result := by
  induction specs generalizing gasUsed transactions with
  | nil => exact ⟨_, rfl⟩
  | cons spec rest ih =>
    obtain ⟨⟨signed, built⟩, each⟩ := List.forall_mem_cons.mp each
    rw [List.map_cons, List.sum_cons] at fits
    obtain ⟨total, sum, value⟩ := exists_checkedAdd (a := gasUsed) (b := spec.gasLimit) (by omega)
    obtain ⟨result, later⟩ := ih each total (by omega) (transactions ++ [signed])
    exact ⟨result, Outcome.bind_eq_ok.mpr ⟨total, Outcome.okOr_eq_ok.mpr sum,
      Outcome.bind_eq_ok.mpr ⟨signed, built, later⟩⟩⟩

/-- A block is generated if each of its transactions can be built and the numbers fit. -/
theorem generateBlock_of_each {spec : BlockSpec}
    (each : ∀ transaction ∈ spec.transactions,
      ∃ signed, builder.buildSignedTransaction host signer transaction snapshots = .ok signed)
    (gas : (spec.transactions.map fun spec => spec.gasLimit.toNat).sum < 2 ^ 64)
    (time : builder.state.genesisTimestamp.toNat + 12 * (builder.state.currentNumber.toNat + 1) < 2 ^ 64) :
    ∃ block builder', generateBlock host signer spec snapshots builder = .ok (block, builder') := by
  obtain ⟨⟨gasUsed, transactions⟩, built⟩ := buildTransactions_of_each each 0 ((Nat.zero_add _).trans_lt gas) []
  have room : builder.state.currentNumber.toNat + (1 : U64).toNat < 2 ^ 64 := by
    change _ + 1 < _
    omega
  obtain ⟨number, next, value⟩ := exists_checkedAdd room
  change _ = _ + 1 at value
  obtain ⟨timestamp, timed⟩ := timestampAt_of_fits builder number (by omega)
  apply Exists.intro
  apply Exists.intro
  rw [generateBlock, Exec.get_bind]
  exact Exec.lift_bind_eq_ok.mpr ⟨_, built, Exec.lift_bind_eq_ok.mpr ⟨number, Outcome.okOr_eq_ok.mpr next,
    Exec.lift_bind_eq_ok.mpr ⟨timestamp, timed, Exec.lift_bind_eq_ok.mpr
      ⟨_, Outcome.mapErr_eq_ok.mpr (hashHeader_eq _ _), rfl⟩⟩⟩⟩

end Specification

end BlockBuilder

end MiniEthNode
