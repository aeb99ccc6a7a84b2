import MiniEthNode.Execution.Executor

namespace MiniEthNode
open Rust

/-- The balance of an address, zero if it has no account. -/
def balanceOf (state : HashMap Address Account) (address : Address) : Nat :=
  ((state.lookup address).map fun account => account.balance.toNat).getD 0

/-- The nonce of an address, zero if it has no account. -/
def nonceOf (state : HashMap Address Account) (address : Address) : Nat :=
  ((state.lookup address).map fun account => account.nonce.toNat).getD 0

/-- All balances together. -/
def totalBalance (state : HashMap Address Account) : Nat :=
  HashMap.sumBy (fun account => account.balance.toNat) state

/-- The fee that a transaction pays at a base fee: its price times its gas limit. -/
def feeOf (baseFeePerGas : U128) (tx : Transaction) : Nat :=
  match tx.effectiveGasPrice baseFeePerGas with
  | .ok price => price.toNat * tx.gasLimit.toNat
  | _ => 0

/-- One transaction took the accounts from `before` to `after`. -/
structure Transfer (baseFeePerGas : U128) (tx : Transaction) (sender : Address)
    (before after : HashMap Address Account) : Prop where
  priced : ∃ price, tx.effectiveGasPrice baseFeePerGas = .ok price
  supply : totalBalance after + feeOf baseFeePerGas tx = totalBalance before
  nonce : tx.nonce.toNat = nonceOf before sender
  nonces : ∀ address, nonceOf after address = nonceOf before address + if address = sender then 1 else 0

/-- A sequence of transactions with their senders. -/
inductive Transfers (baseFeePerGas : U128) :
    List (SignedTransaction × Address) → HashMap Address Account → HashMap Address Account → Prop
  | nil {state} : Transfers baseFeePerGas [] state state
  | cons {signedTx sender rest before between after} :
      Transfer baseFeePerGas signedTx.transaction sender before between →
      Transfers baseFeePerGas rest between after →
      Transfers baseFeePerGas ((signedTx, sender) :: rest) before after

/-- What the checks on the sender amount to. -/
theorem chargeSender_ok {sender : Address} {baseFeePerGas : U128} {tx : Transaction} {account charged : Account}
    {price : U128} (ran : chargeSender sender baseFeePerGas tx account = .ok (charged, price)) :
    tx.nonce = account.nonce ∧ tx.effectiveGasPrice baseFeePerGas = .ok price ∧
      charged.balance.toNat + (price.toNat * tx.gasLimit.toNat + tx.value.toNat) = account.balance.toNat ∧
      charged.nonce.toNat = account.nonce.toNat + 1 := by
  unfold chargeSender at ran
  split at ran
  · cases ran
  · rename_i nonce
    obtain ⟨maxCost, _, ran⟩ := Outcome.bind_eq_ok.mp ran
    split at ran
    · cases ran
    · obtain ⟨price', priced, ran⟩ := Outcome.bind_eq_ok.mp ran
      obtain ⟨gasCost, product, ran⟩ := Outcome.bind_eq_ok.mp ran
      obtain ⟨cost, sum, ran⟩ := Outcome.bind_eq_ok.mp ran
      obtain ⟨balance, difference, ran⟩ := Outcome.bind_eq_ok.mp ran
      obtain ⟨next, successor, ran⟩ := Outcome.bind_eq_ok.mp ran
      rw [Outcome.okOr_eq_ok] at product sum difference successor
      rw [checkedMul_eq_some, BitVec.toNat_setWidth_of_le (by decide)] at product
      rw [checkedAdd_eq_some] at sum successor
      rw [checkedSub_eq_some] at difference
      cases ran
      refine ⟨not_not.mp nonce, Outcome.mapErr_eq_ok.mp priced, ?_, ?_⟩
      · show balance.toNat + _ = _
        omega
      · show next.toNat = _
        rw [← successor]
        rfl

theorem creditRecipient_ok {tx : Transaction} {recipient credited : Account}
    (ran : creditRecipient tx recipient = .ok credited) :
    credited.balance.toNat = recipient.balance.toNat + tx.value.toNat ∧ credited.nonce = recipient.nonce := by
  obtain ⟨balance, sum, ran⟩ := Outcome.bind_eq_ok.mp ran
  rw [Outcome.okOr_eq_ok, checkedAdd_eq_some] at sum
  cases ran
  exact ⟨sum.symm, rfl⟩

theorem recipientAccount_eq (address : Address) (provider : InMemoryProvider) :
    recipientAccount address provider = .ok ((provider.state.lookup address).getD Account.default) := by
  unfold recipientAccount InMemoryProvider.getAccount
  cases provider.state.lookup address <;> rfl

theorem totalBalance_insert (state : HashMap Address Account) (address : Address) (info : Account) :
    totalBalance (state.insert address info) + balanceOf state address = totalBalance state + info.balance.toNat :=
  HashMap.sumBy_insert _ state address info

theorem balanceOf_default (state : HashMap Address Account) (address : Address) :
    ((state.lookup address).getD Account.default).balance.toNat = balanceOf state address := by
  unfold balanceOf
  cases state.lookup address <;> rfl

theorem nonceOf_default (state : HashMap Address Account) (address : Address) :
    ((state.lookup address).getD Account.default).nonce.toNat = nonceOf state address := by
  unfold nonceOf
  cases state.lookup address <;> rfl

theorem nonceOf_insert (state : HashMap Address Account) (address other : Address) (info : Account) :
    nonceOf (state.insert address info) other =
      if other = address then info.nonce.toNat else nonceOf state other := by
  unfold nonceOf
  rw [HashMap.lookup_insert_ite]
  split <;> rfl

/-- A charged sender and a credited recipient, which may be the same account or a new one. -/
theorem transfer_of_writes {baseFeePerGas price : U128} {tx : Transaction} {sender recipient : Address}
    {before : HashMap Address Account} {account charged credited : Account}
    (present : before.lookup sender = some account)
    (charge : chargeSender sender baseFeePerGas tx account = .ok (charged, price))
    (credit : creditRecipient tx (((before.insert sender charged).lookup recipient).getD Account.default) =
      .ok credited) :
    Transfer baseFeePerGas tx sender before ((before.insert sender charged).insert recipient credited) := by
  obtain ⟨nonce, priced, paid, raised⟩ := chargeSender_ok charge
  obtain ⟨received, kept⟩ := creditRecipient_ok credit
  rw [balanceOf_default] at received
  have nonceKept : credited.nonce.toNat = nonceOf (before.insert sender charged) recipient := by
    rw [kept, nonceOf_default]
  have senderBalance : balanceOf before sender = account.balance.toNat := by rw [balanceOf, present]; rfl
  have senderNonce : nonceOf before sender = account.nonce.toNat := by rw [nonceOf, present]; rfl
  have first := totalBalance_insert before sender charged
  have second := totalBalance_insert (before.insert sender charged) recipient credited
  refine ⟨⟨price, priced⟩, ?_, by rw [senderNonce, nonce], fun address => ?_⟩
  · have fee : feeOf baseFeePerGas tx = price.toNat * tx.gasLimit.toNat := by rw [feeOf, priced]
    omega
  · rw [nonceOf_insert]
    by_cases same : address = recipient
    · subst same
      rw [if_pos rfl, nonceKept, nonceOf_insert]
      by_cases self : address = sender
      · rw [if_pos self, if_pos self, self, senderNonce, raised]
      · rw [if_neg self, if_neg self, Nat.add_zero]
    · rw [if_neg same, nonceOf_insert]
      by_cases self : address = sender
      · rw [if_pos self, if_pos self, self, senderNonce, raised]
      · rw [if_neg self, if_neg self, Nat.add_zero]

/-- Everything that a round does: the sender is charged, then the recipient is credited, and at the
end the receipt is appended. -/
theorem executeTransaction_ok {host : Host} {header : Header} {blockHash : B256} {baseFeePerGas : U128}
    {i : Nat} {signedTx : SignedTransaction} {sender : Address} {progress progress' : Progress}
    {p p' : InMemoryProvider}
    (ran : executeTransaction host header blockHash baseFeePerGas i signedTx sender progress p = .ok (progress', p')) :
    ∃ account charged price recipient credited, p.state.lookup sender = some account ∧
      chargeSender sender baseFeePerGas signedTx.transaction account = .ok (charged, price) ∧
      signedTx.transaction.toAddress = some recipient ∧
      creditRecipient signedTx.transaction
        (((p.state.insert sender charged).lookup recipient).getD Account.default) = .ok credited ∧
      appendReceipt host header blockHash i signedTx sender price progress = .ok progress' ∧
      p'.state = (p.state.insert sender charged).insert recipient credited := by
  obtain ⟨account, _, readSender, ran⟩ := Exec.bind_eq_ok.mp ran
  obtain ⟨present, rfl⟩ := Exec.read_eq_ok.mp readSender
  obtain ⟨⟨charged, price⟩, _, lifted, ran⟩ := Exec.bind_eq_ok.mp ran
  obtain ⟨charge, rfl⟩ := Exec.lift_eq_ok.mp lifted
  rw [Exec.modify_bind] at ran
  cases recipientAddress : signedTx.transaction.toAddress with
  | none =>
    rw [recipientAddress] at ran
    cases ran
  | some recipientAddress' =>
    rw [recipientAddress] at ran
    obtain ⟨recipient, _, readRecipient, ran⟩ := Exec.bind_eq_ok.mp ran
    obtain ⟨held, rfl⟩ := Exec.read_eq_ok.mp readRecipient
    obtain ⟨credited, _, lifted, ran⟩ := Exec.bind_eq_ok.mp ran
    obtain ⟨credit, rfl⟩ := Exec.lift_eq_ok.mp lifted
    rw [Exec.modify_bind] at ran
    obtain ⟨appended, rfl⟩ := Exec.lift_eq_ok.mp ran
    rw [recipientAccount_eq, Outcome.ok.injEq] at held
    subst held
    exact ⟨account, charged, price, recipientAddress', credited, Outcome.okOr_eq_ok.mp present, charge, rfl, credit,
      appended, rfl⟩

theorem executeTransaction_transfer {host : Host} {header : Header} {blockHash : B256} {baseFeePerGas : U128}
    {i : Nat} {signedTx : SignedTransaction} {sender : Address} {progress progress' : Progress}
    {p p' : InMemoryProvider}
    (ran : executeTransaction host header blockHash baseFeePerGas i signedTx sender progress p = .ok (progress', p')) :
    Transfer baseFeePerGas signedTx.transaction sender p.state p'.state := by
  obtain ⟨account, charged, price, recipient, credited, present, charge, _, credit, _, after⟩ := executeTransaction_ok ran
  rw [after]
  exact transfer_of_writes present charge credit

theorem executeTransactions_transfers {host : Host} {header : Header} {blockHash : B256} {baseFeePerGas : U128}
    {i : Nat} {transactions : List (SignedTransaction × Address)} {progress progress' : Progress}
    {p p' : InMemoryProvider}
    (ran : executeTransactions host header blockHash baseFeePerGas i transactions progress p =
      .ok (progress', p')) : Transfers baseFeePerGas transactions p.state p'.state := by
  induction transactions generalizing i progress p with
  | nil =>
    cases ran
    exact .nil
  | cons entry rest ih =>
    obtain ⟨between, q, first, ran⟩ := Exec.bind_eq_ok.mp ran
    exact .cons (executeTransaction_transfer first) (ih ran)

/-- A block that executes is a sequence of transfers, one for each transaction that has a sender. -/
theorem executeBlock_transfers {host : Host} {blockWithSenders : BlockWithSenders} {output : ExecutionOutput}
    {p p' : InMemoryProvider} (ran : executeBlock host blockWithSenders p = .ok (output, p')) :
    Transfers blockWithSenders.block.header.baseFeePerGas
      (blockWithSenders.block.transactions.zip blockWithSenders.senders) p.state p'.state := by
  obtain ⟨blockHash, _, hashed, ran⟩ := Exec.bind_eq_ok.mp ran
  obtain ⟨_, rfl⟩ := Exec.lift_eq_ok.mp hashed
  obtain ⟨progress, q, executed, ran⟩ := Exec.bind_eq_ok.mp ran
  obtain ⟨stateRoot, _, rooted, ran⟩ := Exec.bind_eq_ok.mp ran
  obtain ⟨_, rfl⟩ := Exec.read_eq_ok.mp rooted
  cases ran
  exact executeTransactions_transfers executed

theorem appendReceipt_gas {host : Host} {header : Header} {blockHash : B256} {i : Nat} {signedTx : SignedTransaction}
    {sender : Address} {effectiveGasPrice : U128} {progress progress' : Progress}
    (appended : appendReceipt host header blockHash i signedTx sender effectiveGasPrice progress = .ok progress') :
    progress'.cumulativeGasUsed.toNat = progress.cumulativeGasUsed.toNat + signedTx.transaction.gasLimit.toNat := by
  obtain ⟨cumulative, sum, appended⟩ := Outcome.bind_eq_ok.mp appended
  obtain ⟨_, _, appended⟩ := Outcome.bind_eq_ok.mp appended
  rw [Outcome.okOr_eq_ok, checkedAdd_eq_some] at sum
  cases appended
  exact sum.symm

theorem executeTransactions_gas {host : Host} {header : Header} {blockHash : B256} {baseFeePerGas : U128} {i : Nat}
    {transactions : List (SignedTransaction × Address)} {progress progress' : Progress} {p p' : InMemoryProvider}
    (ran : executeTransactions host header blockHash baseFeePerGas i transactions progress p = .ok (progress', p')) :
    progress'.cumulativeGasUsed.toNat = progress.cumulativeGasUsed.toNat +
      (transactions.map fun entry => entry.1.transaction.gasLimit.toNat).sum := by
  induction transactions generalizing i progress p with
  | nil =>
    cases ran
    rfl
  | cons entry rest ih =>
    obtain ⟨between, q, first, ran⟩ := Exec.bind_eq_ok.mp ran
    obtain ⟨_, _, _, _, _, _, _, _, _, appended, _⟩ := executeTransaction_ok first
    have here := appendReceipt_gas appended
    have later := ih ran
    rw [List.map_cons, List.sum_cons]
    omega

theorem Transfers.supply {baseFeePerGas : U128} {transactions : List (SignedTransaction × Address)}
    {before after : HashMap Address Account} (transfers : Transfers baseFeePerGas transactions before after) :
    totalBalance after + (transactions.map fun entry => feeOf baseFeePerGas entry.1.transaction).sum =
      totalBalance before := by
  induction transfers with
  | nil => rfl
  | cons transfer _ ih =>
    have step := transfer.supply
    simp only [List.map_cons, List.sum_cons]
    omega

/-- Each account has counted the transactions that it sent. -/
theorem Transfers.nonces {baseFeePerGas : U128} {transactions : List (SignedTransaction × Address)}
    {before after : HashMap Address Account} (transfers : Transfers baseFeePerGas transactions before after)
    (address : Address) :
    nonceOf after address = nonceOf before address + (transactions.map Prod.snd).count address := by
  induction transfers with
  | nil => rfl
  | @cons _ sender _ _ _ _ transfer _ ih =>
    rw [ih, transfer.nonces, List.map_cons, List.count_cons]
    simp only [beq_iff_eq, eq_comm (a := address)]
    omega

theorem Transfers.priced {baseFeePerGas : U128} {transactions : List (SignedTransaction × Address)}
    {before after : HashMap Address Account} (transfers : Transfers baseFeePerGas transactions before after) :
    ∀ entry ∈ transactions, ∃ price, entry.1.transaction.effectiveGasPrice baseFeePerGas = .ok price := by
  induction transfers with
  | nil => simp
  | cons transfer _ ih =>
    intro entry member
    rcases List.mem_cons.mp member with rfl | later
    · exact transfer.priced
    · exact ih entry later

end MiniEthNode
