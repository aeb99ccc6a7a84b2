import MiniEthNode.Execution.Affordable

namespace MiniEthNode
open Rust

theorem Transaction.maxCost_ne_panic (tx : Transaction) : tx.maxCost ≠ .panic := by
  have cost (price : U128) (gasLimit : U64) (value : U128) : Transaction.costAt price gasLimit value ≠ .panic :=
    Outcome.bind_ne_panic Outcome.okOr_ne_panic fun _ _ => Outcome.okOr_ne_panic
  cases tx <;> exact cost _ _ _

theorem Transaction.effectiveGasPrice_ne_panic (tx : Transaction) (baseFee : U128) :
    tx.effectiveGasPrice baseFee ≠ .panic := by
  have market (maxFee maxPriorityFee : U128) : Transaction.marketGasPrice baseFee maxFee maxPriorityFee ≠ .panic := by
    unfold Transaction.marketGasPrice
    split
    · simp
    · exact Outcome.bind_ne_panic Outcome.okOr_ne_panic fun _ _ => by simp
  cases tx with
  | legacy => simp [Transaction.effectiveGasPrice]
  | eip1559 => exact market _ _
  | eip4844 => exact market _ _

theorem chargeSender_ne_panic (sender : Address) (baseFeePerGas : U128) (tx : Transaction) (account : Account) :
    chargeSender sender baseFeePerGas tx account ≠ .panic := by
  unfold chargeSender
  split
  · simp
  · refine Outcome.bind_ne_panic (Outcome.mapErr_ne_panic tx.maxCost_ne_panic) fun maxCost _ => ?_
    split
    · simp
    · refine Outcome.bind_ne_panic (Outcome.mapErr_ne_panic (tx.effectiveGasPrice_ne_panic baseFeePerGas)) fun _ _ => ?_
      iterate 4 refine Outcome.bind_ne_panic Outcome.okOr_ne_panic fun _ _ => ?_
      simp

theorem appendReceipt_ne_panic (host : Host) (header : Header) (blockHash : B256) (i : Nat)
    (signedTx : SignedTransaction) (sender : Address) (effectiveGasPrice : U128) (progress : Progress) :
    appendReceipt host header blockHash i signedTx sender effectiveGasPrice progress ≠ .panic := by
  refine Outcome.bind_ne_panic Outcome.okOr_ne_panic fun _ _ => Outcome.bind_ne_panic ?_ fun _ _ => by simp
  rw [signedTransactionHash_eq]
  simp

/-- A creation that the sender can pay for: its nonce is that of the account, and the balance covers its cost. -/
structure PaidCreation (baseFeePerGas : U128) (signedTx : SignedTransaction) (sender : Address)
    (state : HashMap Address Account) : Prop where
  creation : signedTx.transaction.toAddress = none
  priced : ∃ price, signedTx.transaction.effectiveGasPrice baseFeePerGas = .ok price
  affordable : ∃ account cost, Affordable signedTx.transaction sender state account cost

theorem paidCreation_iff {baseFeePerGas : U128} {signedTx : SignedTransaction} {sender : Address}
    {state : HashMap Address Account} :
    PaidCreation baseFeePerGas signedTx sender state ↔
      signedTx.transaction.toAddress = none ∧ ∃ account charged, state.lookup sender = some account ∧
        chargeSender sender baseFeePerGas signedTx.transaction account = .ok charged := by
  constructor
  · rintro ⟨creation, ⟨price, priced⟩, account, cost, affordable⟩
    obtain ⟨charged, charge⟩ := chargeSender_affordable affordable priced
    exact ⟨creation, account, (charged, price), affordable.present, charge⟩
  · rintro ⟨creation, account, ⟨charged, price⟩, present, charge⟩
    obtain ⟨cost, affordable⟩ := affordable_of_charge present charge
    exact ⟨creation, ⟨price, (chargeSender_ok charge).2.1⟩, account, cost, affordable⟩

section Rounds
variable {host : Host} {header : Header} {blockHash : B256} {baseFeePerGas : U128}

theorem executeTransaction_panic_iff {i : Nat} {signedTx : SignedTransaction} {sender : Address} {progress : Progress}
    {p : InMemoryProvider} :
    executeTransaction host header blockHash baseFeePerGas i signedTx sender progress p = .panic ↔
      PaidCreation baseFeePerGas signedTx sender p.state := by
  rw [paidCreation_iff]
  constructor
  · intro stopped
    rcases Exec.bind_eq_panic.mp stopped with missing | ⟨account, _, read, stopped⟩
    · exact absurd missing (Exec.lift_ne_panic Outcome.okOr_ne_panic)
    obtain ⟨present, rfl⟩ := Exec.read_eq_ok.mp read
    rcases Exec.bind_eq_panic.mp stopped with unpaid | ⟨charged, _, lifted, stopped⟩
    · exact absurd unpaid (Exec.lift_ne_panic (chargeSender_ne_panic _ _ _ _))
    obtain ⟨charge, rfl⟩ := Exec.lift_eq_ok.mp lifted
    rw [Exec.modify_bind] at stopped
    cases recipient : signedTx.transaction.toAddress with
    | none => exact ⟨rfl, account, charged, Outcome.okOr_eq_ok.mp present, charge⟩
    | some recipientAddress =>
      -- with a recipient every later step returns
      rw [recipient] at stopped
      rcases Exec.bind_eq_panic.mp stopped with unread | ⟨account', _, _, stopped⟩
      · rw [Exec.read, recipientAccount_eq] at unread
        simp at unread
      rcases Exec.bind_eq_panic.mp stopped with uncredited | ⟨credited, _, _, stopped⟩
      · exact absurd uncredited (Exec.lift_ne_panic (Outcome.bind_ne_panic Outcome.okOr_ne_panic fun _ _ => by simp))
      rw [Exec.modify_bind] at stopped
      exact absurd stopped (Exec.lift_ne_panic (appendReceipt_ne_panic _ _ _ _ _ _ _ _))
  · rintro ⟨recipient, account, charged, present, charge⟩
    have read : Exec.read (fun state => InMemoryProvider.getAccount state sender) p = .ok (account, p) :=
      Exec.read_eq_ok.mpr ⟨Outcome.okOr_eq_ok.mpr present, rfl⟩
    rw [executeTransaction, Exec.bind_ok read, charge, Exec.bind_ok (Exec.lift_ok _ _), Exec.modify_bind, recipient]
    rfl

/-- The loop stops at the first paid creation that it reaches. -/
theorem executeTransactions_panic_iff {i : Nat} {transactions : List (SignedTransaction × Address)}
    {progress : Progress} {p : InMemoryProvider} :
    executeTransactions host header blockHash baseFeePerGas i transactions progress p = .panic ↔
      ∃ front signedTx sender rest progress' q, transactions = front ++ (signedTx, sender) :: rest ∧
        executeTransactions host header blockHash baseFeePerGas i front progress p = .ok (progress', q) ∧
        PaidCreation baseFeePerGas signedTx sender q.state := by
  induction transactions generalizing i progress p with
  | nil =>
    constructor
    · intro stopped
      cases stopped
    · rintro ⟨front, _, _, _, _, _, split, _⟩
      simp at split
  | cons entry transactions ih =>
    obtain ⟨signedTx, sender⟩ := entry
    constructor
    · intro stopped
      rcases Exec.bind_eq_panic.mp stopped with here | ⟨between, q, first, later⟩
      · exact ⟨[], signedTx, sender, transactions, progress, p, rfl, rfl, executeTransaction_panic_iff.mp here⟩
      · obtain ⟨front, signedTx', sender', rest, progress', q', rfl, ran, creation⟩ := ih.mp later
        exact ⟨(signedTx, sender) :: front, signedTx', sender', rest, progress', q', rfl,
          Exec.bind_eq_ok.mpr ⟨_, _, first, ran⟩, creation⟩
    · rintro ⟨front, signedTx', sender', rest, progress', q, split, ran, creation⟩
      refine Exec.bind_eq_panic.mpr ?_
      cases front with
      | nil =>
        cases split
        cases ran
        exact .inl (executeTransaction_panic_iff.mpr creation)
      | cons entry front =>
        obtain ⟨rfl, rfl⟩ := List.cons.inj split
        obtain ⟨between, p', first, ran⟩ := Exec.bind_eq_ok.mp ran
        exact .inr ⟨between, p', first, ih.mpr ⟨front, signedTx', sender', rest, progress', q, rfl, ran, creation⟩⟩

end Rounds

/-- Execution of a block gets to a paid creation. -/
def ReachesCreation (host : Host) (blockWithSenders : BlockWithSenders) (state : HashMap Address Account) : Prop :=
  let header := blockWithSenders.block.header
  ∃ front signedTx sender rest progress provider,
    blockWithSenders.block.transactions.zip blockWithSenders.senders = front ++ (signedTx, sender) :: rest ∧
    executeTransactions host header (headerHash host header) header.baseFeePerGas 0 front ⟨0, [], FixedBytes.zero⟩
      (freshProvider state) = .ok (progress, provider) ∧
    PaidCreation header.baseFeePerGas signedTx sender provider.state

theorem executeOn_panic_iff {host : Host} {blockWithSenders : BlockWithSenders} {state : HashMap Address Account} :
    executeOn host blockWithSenders state = .panic ↔ ReachesCreation host blockWithSenders state := by
  have block : executeOn host blockWithSenders state = .panic ↔
      executeBlock host blockWithSenders (freshProvider state) = .panic := by
    unfold executeOn
    split <;> simp_all
  rw [block, executeBlock, hashHeader_eq, Outcome.mapErr_ok, Exec.bind_ok (Exec.lift_ok _ _), Exec.bind_eq_panic]
  constructor
  · rintro (stopped | ⟨progress, q, _, rooted⟩)
    · exact executeTransactions_panic_iff.mp stopped
    · rw [Exec.read_bind, computeStateRoot_eq] at rooted
      cases rooted
  · intro creation
    exact .inl (executeTransactions_panic_iff.mpr creation)

end MiniEthNode
