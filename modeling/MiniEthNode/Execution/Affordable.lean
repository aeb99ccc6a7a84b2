import MiniEthNode.Execution.Pipeline
import MiniEthNode.Execution.Transfer

namespace MiniEthNode
open Rust

section Costs

/-- The price that is paid is at most the price that the balance is checked against. -/
theorem effectiveGasPrice_le_maxCost {tx : Transaction} {baseFeePerGas price cost : U128}
    (priced : tx.effectiveGasPrice baseFeePerGas = .ok price) (bounded : tx.maxCost = .ok cost) :
    price.toNat * tx.gasLimit.toNat + tx.value.toNat ≤ cost.toNat := by
  have costAt {maxPrice : U128} {gasLimit : U64} {value : U128} (atMost : price.toNat ≤ maxPrice.toNat)
      (computed : Transaction.costAt maxPrice gasLimit value = .ok cost) :
      price.toNat * gasLimit.toNat + value.toNat ≤ cost.toNat := by
    obtain ⟨product, first, second⟩ := Outcome.bind_eq_ok.mp computed
    rw [Outcome.okOr_eq_ok, checkedMul_eq_some, BitVec.toNat_setWidth_of_le (by decide)] at first
    rw [Outcome.okOr_eq_ok, checkedAdd_eq_some] at second
    have scaled := Nat.mul_le_mul_right gasLimit.toNat atMost
    omega
  have market {maxFee maxPriorityFee : U128}
      (computed : Transaction.marketGasPrice baseFeePerGas maxFee maxPriorityFee = .ok price) :
      price.toNat ≤ maxFee.toNat := by
    unfold Transaction.marketGasPrice at computed
    split at computed
    · cases computed
    · obtain ⟨addition, _, computed⟩ := Outcome.bind_eq_ok.mp computed
      cases computed
      split
      · exact le_rfl
      · rename_i above
        exact (BitVec.not_le.mp above).le
  cases tx with
  | legacy nonce gasPrice gasLimit toAddress value data =>
    cases priced
    exact costAt le_rfl bounded
  | eip1559 => exact costAt (market priced) bounded
  | eip4844 => exact costAt (market priced) bounded

end Costs

/-- The sender of a transaction has an account with its nonce and enough to pay for it. -/
structure Affordable (tx : Transaction) (sender : Address) (state : HashMap Address Account) (account : Account)
    (cost : U128) : Prop where
  present : state.lookup sender = some account
  nonce : tx.nonce = account.nonce
  room : account.nonce.toNat + 1 < 2 ^ 64
  bounded : tx.maxCost = .ok cost
  covered : cost ≤ account.balance

theorem chargeSender_affordable {tx : Transaction} {sender : Address} {state : HashMap Address Account}
    {account : Account} {cost baseFeePerGas price : U128} (affordable : Affordable tx sender state account cost)
    (priced : tx.effectiveGasPrice baseFeePerGas = .ok price) :
    ∃ charged, chargeSender sender baseFeePerGas tx account = .ok (charged, price) := by
  have bound := effectiveGasPrice_le_maxCost priced affordable.bounded
  have covered : cost.toNat ≤ account.balance.toNat := affordable.covered
  have width : (tx.gasLimit.setWidth 128).toNat = tx.gasLimit.toNat := BitVec.toNat_setWidth_of_le (by decide)
  have most := cost.isLt
  obtain ⟨gasCost, product⟩ : ∃ gasCost, checkedMul price (tx.gasLimit.setWidth 128) = some gasCost :=
    ⟨_, if_pos (by rw [width]; omega)⟩
  have gasCostValue := checkedMul_eq_some.mp product
  rw [width] at gasCostValue
  obtain ⟨total, sum⟩ : ∃ total, checkedAdd gasCost tx.value = some total := ⟨_, if_pos (by omega)⟩
  have totalValue := checkedAdd_eq_some.mp sum
  obtain ⟨balance, difference⟩ : ∃ balance, checkedSub account.balance total = some balance :=
    ⟨_, if_pos (by omega)⟩
  obtain ⟨nonce, successor⟩ : ∃ nonce, checkedAdd account.nonce 1 = some nonce := ⟨_, if_pos affordable.room⟩
  refine ⟨{ account with balance := balance, nonce := nonce }, ?_⟩
  have afford : ¬ cost > account.balance := BitVec.not_lt.mpr affordable.covered
  rw [chargeSender, if_neg (not_not.mpr affordable.nonce), affordable.bounded, Outcome.mapErr_ok, Outcome.ok_bind,
    if_neg afford, priced, Outcome.mapErr_ok, Outcome.ok_bind, product, Outcome.okOr_some, Outcome.ok_bind, sum,
    Outcome.okOr_some, Outcome.ok_bind, difference, Outcome.okOr_some, Outcome.ok_bind, successor,
    Outcome.okOr_some, Outcome.ok_bind]

/-- Only such a sender is charged. -/
theorem affordable_of_charge {tx : Transaction} {sender : Address} {state : HashMap Address Account}
    {account charged : Account} {baseFeePerGas price : U128} (present : state.lookup sender = some account)
    (charge : chargeSender sender baseFeePerGas tx account = .ok (charged, price)) :
    ∃ cost, Affordable tx sender state account cost := by
  obtain ⟨nonce, _, _, next⟩ := chargeSender_ok charge
  have below := charged.nonce.isLt
  unfold chargeSender at charge
  rw [if_neg (not_not.mpr nonce)] at charge
  obtain ⟨cost, bounded, charge⟩ := Outcome.bind_eq_ok.mp charge
  split at charge
  · cases charge
  · rename_i covered
    exact ⟨cost, present, nonce, next ▸ below, Outcome.mapErr_eq_ok.mp bounded, BitVec.not_lt.mp covered⟩

theorem balanceOf_le_totalBalance (state : HashMap Address Account) (address : Address) :
    balanceOf state address ≤ totalBalance state := by
  have traded := totalBalance_insert state address Account.default
  have zero : Account.default.balance.toNat = 0 := rfl
  omega

/-- What is debited from the sender leaves room for the credit. -/
theorem credit_fits {sender : Address} (recipient : Address) {state : HashMap Address Account}
    {account charged : Account} {value : U128} (present : state.lookup sender = some account)
    (paid : charged.balance.toNat + value.toNat ≤ account.balance.toNat) (supply : totalBalance state < 2 ^ 128) :
    balanceOf (state.insert sender charged) recipient + value.toNat < 2 ^ 128 := by
  have senderBalance : balanceOf state sender = account.balance.toNat := by rw [balanceOf, present]; rfl
  have traded := totalBalance_insert state sender charged
  have part := balanceOf_le_totalBalance (state.insert sender charged) recipient
  omega

theorem creditRecipient_affordable {tx : Transaction} {sender : Address} (recipient : Address)
    {state : HashMap Address Account} {account charged : Account} {baseFeePerGas price : U128}
    (present : state.lookup sender = some account)
    (charge : chargeSender sender baseFeePerGas tx account = .ok (charged, price))
    (supply : totalBalance state < 2 ^ 128) :
    ∃ credited, creditRecipient tx (((state.insert sender charged).lookup recipient).getD Account.default) =
      .ok credited := by
  obtain ⟨_, _, paid, _⟩ := chargeSender_ok charge
  have covered : charged.balance.toNat + tx.value.toNat ≤ account.balance.toNat := by omega
  have fits := credit_fits recipient present covered supply
  rw [← balanceOf_default] at fits
  exact Exists.imp (fun _ => id) ⟨_, Outcome.bind_eq_ok.mpr ⟨_, Outcome.okOr_eq_ok.mpr (if_pos fits), rfl⟩⟩

theorem appendReceipt_fits (host : Host) (header : Header) (blockHash : B256) (i : Nat) (signedTx : SignedTransaction)
    (sender : Address) (effectiveGasPrice : U128) {progress : Progress}
    (gas : progress.cumulativeGasUsed.toNat + signedTx.transaction.gasLimit.toNat < 2 ^ 64) :
    ∃ progress', appendReceipt host header blockHash i signedTx sender effectiveGasPrice progress = .ok progress' ∧
      progress'.cumulativeGasUsed.toNat =
        progress.cumulativeGasUsed.toNat + signedTx.transaction.gasLimit.toNat := by
  obtain ⟨cumulative, sum⟩ : ∃ cumulative,
      checkedAdd progress.cumulativeGasUsed signedTx.transaction.gasLimit = some cumulative := ⟨_, if_pos gas⟩
  rw [appendReceipt, sum, Outcome.okOr_some, Outcome.ok_bind, signedTransactionHash_eq, Outcome.mapErr_ok,
    Outcome.ok_bind]
  exact ⟨_, rfl, (checkedAdd_eq_some.mp sum).symm⟩

/-- What a round leaves: the sender charged, and after that the recipient credited. -/
structure Paid (baseFeePerGas : U128) (tx : Transaction) (sender : Address)
    (before after : HashMap Address Account) : Prop where
  writes : ∃ account charged price recipient credited, before.lookup sender = some account ∧
    chargeSender sender baseFeePerGas tx account = .ok (charged, price) ∧
    creditRecipient tx (((before.insert sender charged).lookup recipient).getD Account.default) = .ok credited ∧
    after = (before.insert sender charged).insert recipient credited

/-- Another sender loses nothing in a round. -/
theorem Paid.affordable {baseFeePerGas : U128} {tx other : Transaction} {sender sender' : Address}
    {before after : HashMap Address Account} {account : Account} {cost : U128}
    (paid : Paid baseFeePerGas tx sender before after) (apart : sender' ≠ sender)
    (affordable : Affordable other sender' before account cost) :
    ∃ account', Affordable other sender' after account' cost := by
  obtain ⟨_, charged, _, recipient, credited, _, _, credit, rfl⟩ := paid.writes
  obtain ⟨received, kept⟩ := creditRecipient_ok credit
  by_cases credits : sender' = recipient
  · subst credits
    have held : (before.insert sender charged).lookup sender' = some account := by
      rw [HashMap.lookup_insert_ite, if_neg apart, affordable.present]
    rw [held, Option.getD_some] at received kept
    refine ⟨credited, by rw [HashMap.lookup_insert_ite, if_pos rfl], ?_, ?_, affordable.bounded, ?_⟩
    · rw [kept, affordable.nonce]
    · rw [kept]
      exact affordable.room
    · have covered : cost.toNat ≤ account.balance.toNat := affordable.covered
      exact show cost.toNat ≤ credited.balance.toNat by omega
  · refine ⟨account, ?_, affordable.nonce, affordable.room, affordable.bounded, affordable.covered⟩
    rw [HashMap.lookup_insert_ite, if_neg credits, HashMap.lookup_insert_ite, if_neg apart, affordable.present]

section Rounds
variable {host : Host} {header : Header} {blockHash : B256} {baseFeePerGas : U128}

/-- A round whose transaction is affordable and has a recipient succeeds. -/
theorem executeTransaction_affordable {i : Nat} {signedTx : SignedTransaction} {sender recipient : Address}
    {progress : Progress} {p : InMemoryProvider} {account : Account} {cost price : U128}
    (affordable : Affordable signedTx.transaction sender p.state account cost)
    (priced : signedTx.transaction.effectiveGasPrice baseFeePerGas = .ok price)
    (paysTo : signedTx.transaction.toAddress = some recipient) (supply : totalBalance p.state < 2 ^ 128)
    (gas : progress.cumulativeGasUsed.toNat + signedTx.transaction.gasLimit.toNat < 2 ^ 64) :
    ∃ progress' p', executeTransaction host header blockHash baseFeePerGas i signedTx sender progress p =
        .ok (progress', p') ∧
      progress'.cumulativeGasUsed.toNat = progress.cumulativeGasUsed.toNat + signedTx.transaction.gasLimit.toNat ∧
      Paid baseFeePerGas signedTx.transaction sender p.state p'.state := by
  obtain ⟨charged, charge⟩ := chargeSender_affordable affordable priced
  obtain ⟨credited, credit⟩ := creditRecipient_affordable recipient affordable.present charge supply
  obtain ⟨progress', appended, counted⟩ := appendReceipt_fits host header blockHash i signedTx sender price gas
  refine ⟨progress', (p.setAccount sender charged).setAccount recipient credited, ?_, counted,
    ⟨account, charged, price, recipient, credited, affordable.present, charge,
    credit, rfl⟩⟩
  refine Exec.bind_eq_ok.mpr ⟨account, p, Exec.read_eq_ok.mpr ⟨Outcome.okOr_eq_ok.mpr affordable.present, rfl⟩, ?_⟩
  refine Exec.bind_eq_ok.mpr ⟨(charged, price), p, Exec.lift_eq_ok.mpr ⟨charge, rfl⟩, ?_⟩
  rw [Exec.modify_bind, paysTo]
  refine Exec.bind_eq_ok.mpr ⟨_, p.setAccount sender charged,
    Exec.read_eq_ok.mpr ⟨recipientAccount_eq recipient _, rfl⟩, ?_⟩
  refine Exec.bind_eq_ok.mpr ⟨credited, p.setAccount sender charged, Exec.lift_eq_ok.mpr ⟨credit, rfl⟩, ?_⟩
  rw [Exec.modify_bind]
  exact Exec.lift_eq_ok.mpr ⟨appended, rfl⟩

/-- A transaction that can be executed in a state. -/
structure Payable (baseFeePerGas : U128) (state : HashMap Address Account) (entry : SignedTransaction × Address) :
    Prop where
  affordable : ∃ account cost, Affordable entry.1.transaction entry.2 state account cost
  priced : ∃ price, entry.1.transaction.effectiveGasPrice baseFeePerGas = .ok price
  paysTo : ∃ recipient, entry.1.transaction.toAddress = some recipient

/-- Transactions of different senders that could each be executed first are executed in any order. -/
theorem executeTransactions_payable {i : Nat} {transactions : List (SignedTransaction × Address)}
    {progress : Progress} {p : InMemoryProvider} (distinct : (transactions.map Prod.snd).Nodup)
    (payable : ∀ entry ∈ transactions, Payable baseFeePerGas p.state entry) (supply : totalBalance p.state < 2 ^ 128)
    (gas : progress.cumulativeGasUsed.toNat +
      (transactions.map fun entry => entry.1.transaction.gasLimit.toNat).sum < 2 ^ 64) :
    ∃ progress' p', executeTransactions host header blockHash baseFeePerGas i transactions progress p =
      .ok (progress', p') := by
  induction transactions generalizing i progress p with
  | nil => exact ⟨progress, p, rfl⟩
  | cons entry rest ih =>
    obtain ⟨signedTx, sender⟩ := entry
    simp only [List.map_cons, List.sum_cons] at gas
    rw [List.map_cons, List.nodup_cons] at distinct
    obtain ⟨⟨account, cost, affordable⟩, ⟨price, priced⟩, recipient, paysTo⟩ := payable _ List.mem_cons_self
    have within : progress.cumulativeGasUsed.toNat + signedTx.transaction.gasLimit.toNat < 2 ^ 64 := by omega
    obtain ⟨between, q, first, counted, paid⟩ : ∃ between q,
        executeTransaction host header blockHash baseFeePerGas i signedTx sender progress p = .ok (between, q) ∧ _ ∧ _ :=
      executeTransaction_affordable affordable priced paysTo supply within
    have transfer := executeTransaction_transfer first
    have later : ∀ entry ∈ rest, Payable baseFeePerGas q.state entry := by
      intro entry member
      obtain ⟨⟨account', cost', affordable'⟩, priced', paysTo'⟩ := payable entry (List.mem_cons_of_mem _ member)
      have apart : entry.2 ≠ sender := fun same => distinct.1 (List.mem_map.mpr ⟨entry, member, same⟩)
      obtain ⟨after, affordable''⟩ := paid.affordable apart affordable'
      exact ⟨⟨after, cost', affordable''⟩, priced', paysTo'⟩
    have supply' := transfer.supply
    obtain ⟨progress', p', ran⟩ := ih distinct.2 later (by omega) (by rw [counted]; omega)
    exact ⟨progress', p', Exec.bind_eq_ok.mpr ⟨between, q, first, ran⟩⟩

end Rounds

theorem executeOn_payable (host : Host) {blockWithSenders : BlockWithSenders} {state : HashMap Address Account}
    (distinct : ((blockWithSenders.block.transactions.zip blockWithSenders.senders).map Prod.snd).Nodup)
    (payable : ∀ entry ∈ blockWithSenders.block.transactions.zip blockWithSenders.senders,
      Payable blockWithSenders.block.header.baseFeePerGas state entry) (supply : totalBalance state < 2 ^ 128)
    (gas : ((blockWithSenders.block.transactions.zip blockWithSenders.senders).map fun entry =>
      entry.1.transaction.gasLimit.toNat).sum < 2 ^ 64) :
    ∃ output state', executeOn host blockWithSenders state = .ok (output, state') := by
  have start : (0 : U64).toNat + ((blockWithSenders.block.transactions.zip blockWithSenders.senders).map fun entry =>
      entry.1.transaction.gasLimit.toNat).sum < 2 ^ 64 := (Nat.zero_add _).trans_lt gas
  obtain ⟨progress, provider, ran⟩ : ∃ progress provider,
      executeTransactions host blockWithSenders.block.header (headerHash host blockWithSenders.block.header)
        blockWithSenders.block.header.baseFeePerGas 0
        (blockWithSenders.block.transactions.zip blockWithSenders.senders) ⟨0, [], FixedBytes.zero⟩
        (freshProvider state) = .ok (progress, provider) :=
    executeTransactions_payable distinct payable supply start
  unfold executeOn
  rw [executeBlock, hashHeader_eq, Outcome.mapErr_ok, Exec.bind_ok (Exec.lift_ok _ _), Exec.bind_ok ran,
    Exec.read_bind, computeStateRoot_eq]
  exact ⟨_, _, rfl⟩

end MiniEthNode
