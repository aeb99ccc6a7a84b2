import MiniEthNode.Execution.StateRoot

namespace MiniEthNode
open Rust

structure ExecutionOutput where
  gasUsed : U64
  receipts : List Receipt
  logsBloom : Bloom
  stateRoot : B256
  deriving DecidableEq

structure BlockWithSenders where
  block : Block
  senders : List Address

class BlockExecutor (E : Type) (Output : outParam Type) where
  execute : Host → E → BlockWithSenders → Exec InMemoryProvider ExecutionError Output

structure ValueTransferExecutor where

/-- What the loop of `execute` carries from one transaction to the next. -/
structure Progress where
  cumulativeGasUsed : U64
  receipts : List Receipt
  logsBloom : Bloom

/-- The part of a round that checks and charges the sender: its new account and the price paid. -/
def chargeSender (sender : Address) (baseFeePerGas : U128) (tx : Transaction) (account : Account) :
    Outcome ExecutionError (Account × U128) :=
  if tx.nonce ≠ account.nonce then .err (.invalidNonce sender account.nonce tx.nonce)
  else do
    let maxCost ← tx.maxCost.mapErr .transaction
    if maxCost > account.balance then .err (.insufficientBalance sender account.balance maxCost)
    else do
      let effectiveGasPrice ← (tx.effectiveGasPrice baseFeePerGas).mapErr .transaction
      let gasCost ← Outcome.okOr (checkedMul effectiveGasPrice (tx.gasLimit.setWidth 128)) .overflow
      let cost ← Outcome.okOr (checkedAdd gasCost tx.value) .overflow
      let balance ← Outcome.okOr (checkedSub account.balance cost) .underflow
      let nonce ← Outcome.okOr (checkedAdd account.nonce 1) .overflow
      .ok ({ account with balance := balance, nonce := nonce }, effectiveGasPrice)

/-- The `or_else` that gives an unknown recipient an empty account. -/
def recipientAccount (recipientAddress : Address) (state : InMemoryProvider) : Outcome ExecutionError Account :=
  match state.getAccount recipientAddress with
  | .err (.accountNotFound _) => .ok Account.default
  | other => other

def creditRecipient (tx : Transaction) (recipient : Account) : Outcome ExecutionError Account := do
  let balance ← Outcome.okOr (checkedAdd recipient.balance tx.value) .overflow
  .ok { recipient with balance := balance }

/-- The end of a round: gas is counted by the limit, and the receipt is built. -/
def appendReceipt (host : Host) (header : Header) (blockHash : B256) (i : Nat) (signedTx : SignedTransaction)
    (sender : Address) (effectiveGasPrice : U128) (progress : Progress) : Outcome ExecutionError Progress := do
  let gasUsed := signedTx.transaction.gasLimit
  let cumulativeGasUsed ← Outcome.okOr (checkedAdd progress.cumulativeGasUsed gasUsed) .overflow
  let hash ← (signedTransactionHash host signedTx).mapErr .signing
  let receipt : Receipt :=
    { transactionHash := hash
      transactionIndex := BitVec.ofNat 64 i
      blockHash := blockHash
      blockNumber := header.number
      fromAddress := sender
      toAddress := signedTx.transaction.toAddress
      contractAddress := none
      cumulativeGasUsed := cumulativeGasUsed
      effectiveGasPrice := effectiveGasPrice
      gasUsed := gasUsed
      status := true
      logs := []
      logsBloom := FixedBytes.zero }
  .ok ⟨cumulativeGasUsed, progress.receipts ++ [receipt], progress.logsBloom.bitOr receipt.logsBloom⟩

/-- One round of the loop of `execute`; a transaction without recipient is `todo!()`. -/
def executeTransaction (host : Host) (header : Header) (blockHash : B256) (baseFeePerGas : U128) (i : Nat)
    (signedTx : SignedTransaction) (sender : Address) (progress : Progress) :
    Exec InMemoryProvider ExecutionError Progress := do
  let account ← Exec.read (·.getAccount sender)
  let charged ← Exec.lift (chargeSender sender baseFeePerGas signedTx.transaction account)
  Exec.modify (·.setAccount sender charged.1)
  match signedTx.transaction.toAddress with
  | none => Exec.panic
  | some recipientAddress => do
    let recipient ← Exec.read (recipientAccount recipientAddress)
    let recipient ← Exec.lift (creditRecipient signedTx.transaction recipient)
    Exec.modify (·.setAccount recipientAddress recipient)
    Exec.lift (appendReceipt host header blockHash i signedTx sender charged.2 progress)

def executeTransactions (host : Host) (header : Header) (blockHash : B256) (baseFeePerGas : U128) :
    Nat → List (SignedTransaction × Address) → Progress → Exec InMemoryProvider ExecutionError Progress
  | _, [], progress => pure progress
  | i, (signedTx, sender) :: rest, progress => do
    let progress ← executeTransaction host header blockHash baseFeePerGas i signedTx sender progress
    executeTransactions host header blockHash baseFeePerGas (i + 1) rest progress

/-- Half of the gas limit stands for the base fee. -/
def Header.baseFeePerGas (header : Header) : U128 := header.gasLimit.setWidth 128 / 2

def executeBlock (host : Host) (blockWithSenders : BlockWithSenders) :
    Exec InMemoryProvider ExecutionError ExecutionOutput := do
  let header := blockWithSenders.block.header
  let blockHash ← Exec.lift ((hashHeader host header).mapErr .rlp)
  let progress ← executeTransactions host header blockHash header.baseFeePerGas 0
    (blockWithSenders.block.transactions.zip blockWithSenders.senders) ⟨0, [], FixedBytes.zero⟩
  let stateRoot ← Exec.read fun state => (computeStateRoot host state).mapErr .rootCompute
  pure ⟨progress.cumulativeGasUsed, progress.receipts, progress.logsBloom, stateRoot⟩

instance : BlockExecutor ValueTransferExecutor ExecutionOutput where
  execute host _ blockWithSenders := executeBlock host blockWithSenders

section Locality

/-- A property that survives every write to an account. -/
def Stable (P : InMemoryProvider → Prop) : Prop :=
  ∀ provider address info, P provider → P (provider.setAccount address info)

/-- Two providers with the same accounts, each with a property of its own. -/
def SameAccounts (P Q : InMemoryProvider → Prop) (p q : InMemoryProvider) : Prop :=
  p.state = q.state ∧ P p ∧ Q q

variable {P Q : InMemoryProvider → Prop}

theorem SameAccounts.setAccount (stableP : Stable P) (stableQ : Stable Q) (address : Address) (info : Account)
    {p q : InMemoryProvider} (same : SameAccounts P Q p q) :
    SameAccounts P Q (p.setAccount address info) (q.setAccount address info) := by
  obtain ⟨states, atP, atQ⟩ := same
  refine ⟨?_, stableP p address info atP, stableQ q address info atQ⟩
  simp only [InMemoryProvider.setAccount, states]

theorem computeStateRoot_congr (host : Host) {p q : InMemoryProvider} (same : p.state = q.state) :
    computeStateRoot host p = computeStateRoot host q := by
  rw [computeStateRoot_eq, computeStateRoot_eq, same]

theorem executeTransaction_relates (stableP : Stable P) (stableQ : Stable Q) (host : Host) (header : Header)
    (blockHash : B256) (baseFeePerGas : U128) (i : Nat) (signedTx : SignedTransaction) (sender : Address)
    (progress : Progress) :
    Exec.Relates (SameAccounts P Q)
      (executeTransaction host header blockHash baseFeePerGas i signedTx sender progress)
      (executeTransaction host header blockHash baseFeePerGas i signedTx sender progress) := by
  have accounts : ∀ address p q, SameAccounts P Q p q →
      InMemoryProvider.getAccount p address = InMemoryProvider.getAccount q address := by
    intro address p q same
    rw [InMemoryProvider.getAccount, InMemoryProvider.getAccount, same.1]
  refine .bind (.read (accounts sender)) fun account => .bind (.lift _) fun charged => .bind
    (.modify fun p q => SameAccounts.setAccount stableP stableQ sender charged.1) fun _ => ?_
  cases signedTx.transaction.toAddress with
  | none => exact .panic
  | some recipientAddress =>
    refine .bind (.read fun p q same => ?_) fun recipient => .bind (.lift _) fun credited => .bind
      (.modify fun p q => SameAccounts.setAccount stableP stableQ recipientAddress credited) fun _ => .lift _
    rw [recipientAccount, recipientAccount, accounts recipientAddress p q same]

theorem executeTransactions_relates (stableP : Stable P) (stableQ : Stable Q) (host : Host) (header : Header)
    (blockHash : B256) (baseFeePerGas : U128) (i : Nat) (transactions : List (SignedTransaction × Address))
    (progress : Progress) :
    Exec.Relates (SameAccounts P Q)
      (executeTransactions host header blockHash baseFeePerGas i transactions progress)
      (executeTransactions host header blockHash baseFeePerGas i transactions progress) := by
  induction transactions generalizing i progress with
  | nil => exact .pure progress
  | cons entry rest ih =>
    exact .bind (executeTransaction_relates stableP stableQ _ _ _ _ _ _ _ _) fun progress => ih (i + 1) progress

/-- Execution sees and changes nothing but the accounts, and only through `set_account`. -/
theorem executeBlock_relates (stableP : Stable P) (stableQ : Stable Q) (host : Host)
    (blockWithSenders : BlockWithSenders) :
    Exec.Relates (SameAccounts P Q) (executeBlock host blockWithSenders) (executeBlock host blockWithSenders) := by
  refine .bind (.lift _) fun blockHash => .bind (executeTransactions_relates stableP stableQ _ _ _ _ _ _ _) fun progress =>
    .bind (.read fun p q same => ?_) fun stateRoot => .pure _
  rw [computeStateRoot_congr host same.1]

end Locality

end MiniEthNode
