import MiniEthNode.Execution.Affordable

namespace MiniEthNode
open Rust

/-- All the reasons for which a round of the executor returns an error, given the accounts and the
gas that it starts from. -/
inductive Fault (baseFeePerGas : U128) (tx : Transaction) (sender : Address) (gas : U64)
    (state : HashMap Address Account) : ExecutionError → Prop
  | missing : state.lookup sender = none → Fault baseFeePerGas tx sender gas state (.accountNotFound sender)
  | nonce {account} : state.lookup sender = some account → tx.nonce ≠ account.nonce →
      Fault baseFeePerGas tx sender gas state (.invalidNonce sender account.nonce tx.nonce)
  | cost {cause} : tx.maxCost = .err cause → Fault baseFeePerGas tx sender gas state (.transaction cause)
  | balance {account cost} : state.lookup sender = some account → tx.maxCost = .ok cost → account.balance < cost →
      Fault baseFeePerGas tx sender gas state (.insufficientBalance sender account.balance cost)
  | price {cause} : tx.effectiveGasPrice baseFeePerGas = .err cause →
      Fault baseFeePerGas tx sender gas state (.transaction cause)
  | lastNonce {account} : state.lookup sender = some account → account.nonce = BitVec.allOnes 64 →
      Fault baseFeePerGas tx sender gas state .overflow
  | credit {account charged price recipient} : state.lookup sender = some account →
      chargeSender sender baseFeePerGas tx account = .ok (charged, price) →
      2 ^ 128 ≤ balanceOf (state.insert sender charged) recipient + tx.value.toNat →
      Fault baseFeePerGas tx sender gas state .overflow
  | gas : 2 ^ 64 ≤ gas.toNat + tx.gasLimit.toNat → Fault baseFeePerGas tx sender gas state .overflow

section Debit

/-- Once the balance covers the highest price, the debit at the price that is paid is in range. -/
theorem debit_fits {tx : Transaction} {baseFeePerGas price cost balance : U128}
    (priced : tx.effectiveGasPrice baseFeePerGas = .ok price) (bounded : tx.maxCost = .ok cost)
    (covered : cost ≤ balance) : price.toNat * tx.gasLimit.toNat + tx.value.toNat ≤ balance.toNat :=
  (effectiveGasPrice_le_maxCost priced bounded).trans (BitVec.le_def.mp covered)

theorem chargeSender_fault {sender : Address} {baseFeePerGas : U128} {tx : Transaction} {account : Account}
    {error : ExecutionError} {state : HashMap Address Account} (gas : U64)
    (present : state.lookup sender = some account)
    (failed : chargeSender sender baseFeePerGas tx account = .err error) :
    Fault baseFeePerGas tx sender gas state error := by
  unfold chargeSender at failed
  split at failed
  · rename_i different
    cases failed
    exact .nonce present different
  rcases Outcome.bind_eq_err.mp failed with uncounted | ⟨cost, bounded, failed⟩
  · obtain ⟨cause, overflow, rfl⟩ := Outcome.mapErr_eq_err.mp uncounted
    exact .cost overflow
  rw [Outcome.mapErr_eq_ok] at bounded
  split at failed
  · rename_i short
    cases failed
    exact .balance present bounded short
  rename_i covered
  rcases Outcome.bind_eq_err.mp failed with unpriced | ⟨price, priced, failed⟩
  · obtain ⟨cause, refused, rfl⟩ := Outcome.mapErr_eq_err.mp unpriced
    exact .price refused
  rw [Outcome.mapErr_eq_ok] at priced
  have debit := debit_fits priced bounded (BitVec.not_lt.mp covered)
  have most := account.balance.isLt
  have width : (tx.gasLimit.setWidth 128).toNat = tx.gasLimit.toNat := BitVec.toNat_setWidth_of_le (by decide)
  rcases Outcome.bind_eq_err.mp failed with large | ⟨gasCost, product, failed⟩
  · have above := checkedMul_eq_none.mp (Outcome.okOr_eq_err.mp large).1
    rw [width] at above
    omega
  rw [Outcome.okOr_eq_ok, checkedMul_eq_some, width] at product
  rcases Outcome.bind_eq_err.mp failed with large | ⟨total, sum, failed⟩
  · have above := checkedAdd_eq_none.mp (Outcome.okOr_eq_err.mp large).1
    omega
  rw [Outcome.okOr_eq_ok, checkedAdd_eq_some] at sum
  rcases Outcome.bind_eq_err.mp failed with short | ⟨balance, _, failed⟩
  · have above := checkedSub_eq_none.mp (Outcome.okOr_eq_err.mp short).1
    omega
  rcases Outcome.bind_eq_err.mp failed with last | ⟨nonce, _, failed⟩
  · obtain ⟨none, rfl⟩ := Outcome.okOr_eq_err.mp last
    have above : 2 ^ 64 ≤ account.nonce.toNat + 1 := checkedAdd_eq_none.mp none
    refine .lastNonce present (BitVec.eq_of_toNat_eq ?_)
    have below := account.nonce.isLt
    rw [BitVec.toNat_allOnes]
    omega
  · cases failed

end Debit

theorem creditRecipient_err {tx : Transaction} {recipient : Account} {error : ExecutionError}
    (failed : creditRecipient tx recipient = .err error) :
    error = .overflow ∧ 2 ^ 128 ≤ recipient.balance.toNat + tx.value.toNat := by
  rcases Outcome.bind_eq_err.mp failed with large | ⟨_, _, failed⟩
  · obtain ⟨none, rfl⟩ := Outcome.okOr_eq_err.mp large
    exact ⟨rfl, checkedAdd_eq_none.mp none⟩
  · cases failed

/-- A receipt fails to be built only where the gas does not fit: every transaction has a hash. -/
theorem appendReceipt_err {host : Host} {header : Header} {blockHash : B256} {i : Nat} {signedTx : SignedTransaction}
    {sender : Address} {effectiveGasPrice : U128} {progress : Progress} {error : ExecutionError}
    (failed : appendReceipt host header blockHash i signedTx sender effectiveGasPrice progress = .err error) :
    error = .overflow ∧
      2 ^ 64 ≤ progress.cumulativeGasUsed.toNat + signedTx.transaction.gasLimit.toNat := by
  rcases Outcome.bind_eq_err.mp failed with large | ⟨_, _, failed⟩
  · obtain ⟨none, rfl⟩ := Outcome.okOr_eq_err.mp large
    exact ⟨rfl, checkedAdd_eq_none.mp none⟩
  · rw [signedTransactionHash_eq] at failed
    cases failed

section Rounds
variable {host : Host} {header : Header} {blockHash : B256} {baseFeePerGas : U128}

theorem executeTransaction_fault {i : Nat} {signedTx : SignedTransaction} {sender : Address} {progress : Progress}
    {p p' : InMemoryProvider} {error : ExecutionError}
    (failed : executeTransaction host header blockHash baseFeePerGas i signedTx sender progress p =
      .err (error, p')) :
    Fault baseFeePerGas signedTx.transaction sender progress.cumulativeGasUsed p.state error := by
  rcases Exec.bind_eq_err.mp failed with missing | ⟨account, _, read, failed⟩
  · obtain ⟨absent, same⟩ := Outcome.okOr_eq_err.mp (Exec.lift_eq_err.mp missing).1
    cases same
    exact .missing absent
  obtain ⟨present, rfl⟩ := Exec.read_eq_ok.mp read
  rw [InMemoryProvider.getAccount, Outcome.okOr_eq_ok] at present
  rcases Exec.bind_eq_err.mp failed with unpaid | ⟨⟨charged, price⟩, _, lifted, failed⟩
  · exact chargeSender_fault _ present (Exec.lift_eq_err.mp unpaid).1
  obtain ⟨charge, rfl⟩ := Exec.lift_eq_ok.mp lifted
  rw [Exec.modify_bind] at failed
  cases recipient : signedTx.transaction.toAddress with
  | none =>
    rw [recipient] at failed
    cases failed
  | some recipientAddress =>
    rw [recipient] at failed
    rcases Exec.bind_eq_err.mp failed with unread | ⟨held, _, read, failed⟩
    · rw [Exec.read, recipientAccount_eq] at unread
      cases unread
    obtain ⟨found, rfl⟩ := Exec.read_eq_ok.mp read
    rw [recipientAccount_eq, Outcome.ok.injEq] at found
    subst found
    rcases Exec.bind_eq_err.mp failed with uncredited | ⟨credited, _, _, failed⟩
    · obtain ⟨same, large⟩ := creditRecipient_err (Exec.lift_eq_err.mp uncredited).1
      cases same
      rw [balanceOf_default] at large
      exact .credit present charge large
    rw [Exec.modify_bind] at failed
    obtain ⟨same, large⟩ := appendReceipt_err (Exec.lift_eq_err.mp failed).1
    cases same
    exact .gas large

/-- A loop that fails has executed the transactions before the one at fault. -/
theorem executeTransactions_fault {i : Nat} {transactions : List (SignedTransaction × Address)} {progress : Progress}
    {p p' : InMemoryProvider} {error : ExecutionError}
    (failed : executeTransactions host header blockHash baseFeePerGas i transactions progress p = .err (error, p')) :
    ∃ front signedTx sender rest reached q, transactions = front ++ (signedTx, sender) :: rest ∧
      executeTransactions host header blockHash baseFeePerGas i front progress p = .ok (reached, q) ∧
      Fault baseFeePerGas signedTx.transaction sender reached.cumulativeGasUsed q.state error := by
  induction transactions generalizing i progress p with
  | nil => cases failed
  | cons entry transactions ih =>
    obtain ⟨signedTx, sender⟩ := entry
    rcases Exec.bind_eq_err.mp failed with here | ⟨between, q, first, failed⟩
    · exact ⟨[], signedTx, sender, transactions, progress, p, rfl, rfl, executeTransaction_fault here⟩
    · obtain ⟨front, signedTx', sender', rest, reached, q', rfl, ran, fault⟩ := ih failed
      exact ⟨(signedTx, sender) :: front, signedTx', sender', rest, reached, q', rfl,
        Exec.bind_eq_ok.mpr ⟨_, _, first, ran⟩, fault⟩

end Rounds

/-- The loop of the executor over the transactions at the front of a block. -/
def executeFront (host : Host) (header : Header) (transactions : List (SignedTransaction × Address)) :
    Exec InMemoryProvider ExecutionError Progress :=
  executeTransactions host header (headerHash host header) header.baseFeePerGas 0 transactions ⟨0, [], FixedBytes.zero⟩

/-- The state root is always computed, so a block fails where one of its transactions does. -/
theorem executeBlock_fault {host : Host} {blockWithSenders : BlockWithSenders} {provider after : InMemoryProvider}
    {error : ExecutionError} (failed : executeBlock host blockWithSenders provider = .err (error, after)) :
    ∃ front signedTx sender rest progress between,
      blockWithSenders.block.transactions.zip blockWithSenders.senders = front ++ (signedTx, sender) :: rest ∧
      executeFront host blockWithSenders.block.header front provider = .ok (progress, between) ∧
      Fault blockWithSenders.block.header.baseFeePerGas signedTx.transaction sender progress.cumulativeGasUsed
        between.state error := by
  rw [executeBlock, hashHeader_eq, Outcome.mapErr_ok, Exec.bind_ok (Exec.lift_ok _ _)] at failed
  rcases Exec.bind_eq_err.mp failed with stopped | ⟨progress, between, _, failed⟩
  · exact executeTransactions_fault stopped
  · rw [Exec.read_bind, computeStateRoot_eq] at failed
    cases failed

/-- Execution gets to a transaction whose sender has the last nonce or with which the gas limits
add up to more than the counter holds. -/
def CountersExhausted (host : Host) (blockWithSenders : BlockWithSenders) (provider : InMemoryProvider) : Prop :=
  ∃ front signedTx sender rest progress between,
    blockWithSenders.block.transactions.zip blockWithSenders.senders = front ++ (signedTx, sender) :: rest ∧
    executeFront host blockWithSenders.block.header front provider = .ok (progress, between) ∧
    ((∃ account, between.state.lookup sender = some account ∧ account.nonce.toNat = 2 ^ 64 - 1) ∨
      2 ^ 64 - 1 < ((front ++ [(signedTx, sender)]).map fun entry => entry.1.transaction.gasLimit.toNat).sum)

/-- The debit and the credit of a transaction in a state, if its highest cost is covered. -/
structure TransferInRange (baseFeePerGas : U128) (state : HashMap Address Account) : Prop where
  debit : ∀ (tx : Transaction) sender account cost price, state.lookup sender = some account →
    tx.maxCost = .ok cost → cost ≤ account.balance → tx.effectiveGasPrice baseFeePerGas = .ok price →
    price.toNat * tx.gasLimit.toNat + tx.value.toNat ≤ account.balance.toNat
  credit : ∀ (tx : Transaction) sender account charged price recipient, state.lookup sender = some account →
    chargeSender sender baseFeePerGas tx account = .ok (charged, price) →
    balanceOf (state.insert sender charged) recipient + tx.value.toNat < 2 ^ 128

theorem transferInRange_of_supply (baseFeePerGas : U128) {state : HashMap Address Account}
    (supply : totalBalance state < 2 ^ 128) : TransferInRange baseFeePerGas state := by
  refine ⟨fun tx sender account cost price _ bounded covered priced => debit_fits priced bounded covered,
    fun tx sender account charged price recipient present charge => ?_⟩
  obtain ⟨_, _, paid, _⟩ := chargeSender_ok charge
  exact credit_fits recipient present (by omega) supply

/-- No round takes more than it gives, so the bound on the supply holds before every transaction. -/
theorem executeTransactions_inRange {host : Host} {header : Header} {blockHash : B256} {baseFeePerGas : U128} {i : Nat}
    {transactions : List (SignedTransaction × Address)} {progress progress' : Progress} {p p' : InMemoryProvider}
    (supply : totalBalance p.state < 2 ^ 128)
    (ran : executeTransactions host header blockHash baseFeePerGas i transactions progress p = .ok (progress', p')) :
    TransferInRange baseFeePerGas p'.state := by
  have kept := (executeTransactions_transfers ran).supply
  exact transferInRange_of_supply baseFeePerGas (by omega)

/-- With a supply that fits in a balance, execution never underflows, and overflows only in the
nonce of a sender and in the gas. Whatever the base fee, the debit and the credit of a transaction
that passes the check of its highest cost are in range at every point of the block. -/
theorem execution_arithmetic_safe (host : Host) (blockWithSenders : BlockWithSenders) {provider : InMemoryProvider}
    (supply : totalBalance provider.state ≤ 2 ^ 128 - 1) :
    (∀ error after,
      BlockExecutor.execute host ValueTransferExecutor.mk blockWithSenders provider = .err (error, after) →
        error ≠ .underflow ∧ (error = .overflow → CountersExhausted host blockWithSenders provider)) ∧
    ∀ blockHash baseFeePerGas front progress between,
      executeTransactions host blockWithSenders.block.header blockHash baseFeePerGas 0 front ⟨0, [], FixedBytes.zero⟩
        provider = .ok (progress, between) → TransferInRange baseFeePerGas between.state := by
  have small : totalBalance provider.state < 2 ^ 128 := by omega
  refine ⟨fun error after failed => ?_, fun _ _ _ _ _ ran => executeTransactions_inRange small ran⟩
  obtain ⟨front, signedTx, sender, rest, progress, between, split, ran, fault⟩ := executeBlock_fault failed
  have gas : progress.cumulativeGasUsed.toNat = 0 + _ := executeTransactions_gas ran
  have range := executeTransactions_inRange small ran
  constructor
  · rintro rfl
    cases fault
  · rintro rfl
    refine ⟨front, signedTx, sender, rest, progress, between, split, ran, ?_⟩
    cases fault with
    | lastNonce present last => exact .inl ⟨_, present, by rw [last]; rfl⟩
    | @credit account charged price recipient present charge large =>
      have fits := range.credit _ _ _ _ _ recipient present charge
      omega
    | gas large =>
      right
      rw [List.map_append, List.sum_append, List.map_singleton, List.sum_singleton]
      change _ < _ + signedTx.transaction.gasLimit.toNat
      omega

section Sample

/-- An account that has used up its nonces. -/
def lastNonceProvider : InMemoryProvider :=
  freshProvider ((∅ : HashMap Address Account).insert (.ofNat 1)
    { Account.default with balance := 10, nonce := BitVec.allOnes 64 })

/-- A block in which that account sends a transfer that it can pay. -/
def lastNonceBlock : BlockWithSenders where
  block :=
    { header := ⟨.zero, .zero, .zero, .zero, 0, 0, 1, 1⟩
      transactions := [⟨.legacy (BitVec.allOnes 64) 1 2 (some (.ofNat 2)) 3 [], 0, .zero, .zero⟩] }
  senders := [.ofNat 1]

theorem execution_arithmetic_safe_last_nonce : ∃ after,
    BlockExecutor.execute (Host.ofGraph [] []) ValueTransferExecutor.mk lastNonceBlock lastNonceProvider =
      .err (.overflow, after) ∧ CountersExhausted (Host.ofGraph [] []) lastNonceBlock lastNonceProvider := by
  have failed : ∃ after, BlockExecutor.execute (Host.ofGraph [] []) ValueTransferExecutor.mk lastNonceBlock
      lastNonceProvider = .err (.overflow, after) := ⟨_, rfl⟩
  obtain ⟨after, failed⟩ := failed
  have safe := execution_arithmetic_safe (Host.ofGraph [] []) lastNonceBlock
    (show totalBalance lastNonceProvider.state ≤ 2 ^ 128 - 1 by decide)
  exact ⟨after, failed, (safe.1 _ _ failed).2 rfl⟩

end Sample

end MiniEthNode
