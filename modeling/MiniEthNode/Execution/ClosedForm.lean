import MiniEthNode.Execution.Pipeline
import MiniEthNode.Execution.Transfer

namespace MiniEthNode
open Rust

/-- A transaction with its sender. -/
abbrev Sent : Type := SignedTransaction × Address

/-- What a transaction takes from its sender: the fee and the value. -/
def costOf (baseFeePerGas : U128) (tx : Transaction) : Nat := feeOf baseFeePerGas tx + tx.value.toNat

/-- What the transactions sent by an address cost it. -/
def spentBy (baseFeePerGas : U128) (address : Address) (transactions : List Sent) : Nat :=
  ((transactions.filter fun entry => entry.2 = address).map fun entry => costOf baseFeePerGas entry.1.transaction).sum

/-- What the transactions whose recipient is an address bring it. -/
def receivedBy (address : Address) (transactions : List Sent) : Nat :=
  ((transactions.filter fun entry => entry.1.transaction.toAddress = some address).map
    fun entry => entry.1.transaction.value.toNat).sum

/-- The code hash of an address, that of an empty account if it has none. -/
def codeHashOf (state : HashMap Address Account) (address : Address) : B256 :=
  ((state.lookup address).getD Account.default).codeHash

def gasOf (transactions : List Sent) : Nat :=
  (transactions.map fun entry => entry.1.transaction.gasLimit.toNat).sum

section Accounts

/-- What one transaction does to every address. -/
structure Payment (baseFeePerGas : U128) (tx : Transaction) (sender recipient : Address)
    (before after : HashMap Address Account) : Prop where
  paysTo : tx.toAddress = some recipient
  balances : ∀ address, balanceOf after address + (if address = sender then costOf baseFeePerGas tx else 0) =
    balanceOf before address + if address = recipient then tx.value.toNat else 0
  codeHashes : ∀ address, codeHashOf after address = codeHashOf before address
  present : ∀ address, (after.lookup address).isSome ↔ (before.lookup address).isSome ∨ address = recipient
  aside : ∀ address, address ≠ sender → address ≠ recipient → after.lookup address = before.lookup address

theorem balanceOf_insert (state : HashMap Address Account) (address other : Address) (info : Account) :
    balanceOf (state.insert address info) other =
      if other = address then info.balance.toNat else balanceOf state other := by
  unfold balanceOf
  rw [HashMap.lookup_insert_ite]
  split <;> rfl

theorem codeHashOf_insert (state : HashMap Address Account) (address other : Address) (info : Account) :
    codeHashOf (state.insert address info) other =
      if other = address then info.codeHash else codeHashOf state other := by
  unfold codeHashOf
  rw [HashMap.lookup_insert_ite]
  split <;> rfl

theorem chargeSender_codeHash {sender : Address} {baseFeePerGas : U128} {tx : Transaction} {account charged : Account}
    {price : U128} (ran : chargeSender sender baseFeePerGas tx account = .ok (charged, price)) :
    charged.codeHash = account.codeHash := by
  unfold chargeSender at ran
  split at ran
  · cases ran
  obtain ⟨_, _, ran⟩ := Outcome.bind_eq_ok.mp ran
  split at ran
  · cases ran
  obtain ⟨_, _, ran⟩ := Outcome.bind_eq_ok.mp ran
  obtain ⟨_, _, ran⟩ := Outcome.bind_eq_ok.mp ran
  obtain ⟨_, _, ran⟩ := Outcome.bind_eq_ok.mp ran
  obtain ⟨_, _, ran⟩ := Outcome.bind_eq_ok.mp ran
  obtain ⟨_, _, ran⟩ := Outcome.bind_eq_ok.mp ran
  cases ran
  rfl

theorem creditRecipient_codeHash {tx : Transaction} {recipient credited : Account}
    (ran : creditRecipient tx recipient = .ok credited) : credited.codeHash = recipient.codeHash := by
  obtain ⟨_, _, ran⟩ := Outcome.bind_eq_ok.mp ran
  cases ran
  rfl

/-- The debit is stored before the recipient is read, so a transfer to oneself is no exception. -/
theorem payment_of_writes {baseFeePerGas price : U128} {tx : Transaction} {sender recipient : Address}
    {before : HashMap Address Account} {account charged credited : Account}
    (present : before.lookup sender = some account)
    (charge : chargeSender sender baseFeePerGas tx account = .ok (charged, price))
    (paysTo : tx.toAddress = some recipient)
    (credit : creditRecipient tx (((before.insert sender charged).lookup recipient).getD Account.default) =
      .ok credited) :
    Payment baseFeePerGas tx sender recipient before ((before.insert sender charged).insert recipient credited) := by
  obtain ⟨_, priced, paid, _⟩ := chargeSender_ok charge
  have received := (creditRecipient_ok credit).1
  have kept := creditRecipient_codeHash credit
  rw [balanceOf_default] at received
  change _ = codeHashOf (before.insert sender charged) recipient at kept
  have cost : costOf baseFeePerGas tx = price.toNat * tx.gasLimit.toNat + tx.value.toNat := by
    rw [costOf, feeOf, priced]
  have senderBalance : balanceOf before sender = account.balance.toNat := by rw [balanceOf, present]; rfl
  have debited (address : Address) : balanceOf (before.insert sender charged) address +
      (if address = sender then costOf baseFeePerGas tx else 0) = balanceOf before address := by
    rw [balanceOf_insert]
    split
    · rename_i self
      rw [self, senderBalance, cost, paid]
    · rfl
  have coded (address : Address) : codeHashOf (before.insert sender charged) address = codeHashOf before address := by
    rw [codeHashOf_insert]
    split
    · rename_i self
      rw [self, codeHashOf, present, chargeSender_codeHash charge]
      rfl
    · rfl
  refine ⟨paysTo, fun address => ?_, fun address => ?_, fun address => ?_, fun address apart other => ?_⟩
  · have debit := debited address
    rw [balanceOf_insert]
    by_cases here : address = recipient
    · subst here
      rw [if_pos rfl, if_pos rfl]
      omega
    · rw [if_neg here, if_neg here]
      omega
  · rw [codeHashOf_insert]
    split
    · rename_i here
      rw [kept, coded, here]
    · exact coded address
  · rw [HashMap.lookup_insert_ite, HashMap.lookup_insert_ite]
    by_cases here : address = recipient
    · simp [here]
    · by_cases self : address = sender
      · subst self
        simp [here, present]
      · simp [here, self]
  · rw [HashMap.lookup_insert_ite, if_neg other, HashMap.lookup_insert_ite, if_neg apart]

/-- A sequence of payments. -/
inductive Payments (baseFeePerGas : U128) : List Sent → HashMap Address Account → HashMap Address Account → Prop
  | nil {state} : Payments baseFeePerGas [] state state
  | cons {signedTx sender recipient rest before between after} :
      Payment baseFeePerGas signedTx.transaction sender recipient before between →
      Payments baseFeePerGas rest between after →
      Payments baseFeePerGas ((signedTx, sender) :: rest) before after

section Payments
variable {baseFeePerGas : U128} {transactions : List Sent} {before after : HashMap Address Account}

theorem Payments.balances (payments : Payments baseFeePerGas transactions before after) (address : Address) :
    balanceOf after address + spentBy baseFeePerGas address transactions =
      balanceOf before address + receivedBy address transactions := by
  induction payments with
  | nil => rfl
  | @cons signedTx sender recipient rest _ _ _ payment _ ih =>
    have step := payment.balances address
    have spent : spentBy baseFeePerGas address ((signedTx, sender) :: rest) =
        (if address = sender then costOf baseFeePerGas signedTx.transaction else 0) +
          spentBy baseFeePerGas address rest := by
      by_cases here : address = sender
      · simp [spentBy, here]
      · simp [spentBy, here, Ne.symm here]
    have received : receivedBy address ((signedTx, sender) :: rest) =
        (if address = recipient then signedTx.transaction.value.toNat else 0) + receivedBy address rest := by
      by_cases here : address = recipient
      · simp [receivedBy, payment.paysTo, here]
      · simp [receivedBy, payment.paysTo, here, Ne.symm here]
    omega

theorem Payments.codeHashes (payments : Payments baseFeePerGas transactions before after) (address : Address) :
    codeHashOf after address = codeHashOf before address := by
  induction payments with
  | nil => rfl
  | cons payment _ ih => rw [ih, payment.codeHashes]

theorem Payments.present (payments : Payments baseFeePerGas transactions before after) (address : Address) :
    (after.lookup address).isSome ↔ (before.lookup address).isSome ∨
      ∃ entry ∈ transactions, entry.1.transaction.toAddress = some address := by
  induction payments with
  | nil => simp
  | cons payment _ ih =>
    rw [ih, payment.present, or_assoc]
    simp only [List.mem_cons, exists_eq_or_imp, payment.paysTo, Option.some.injEq, eq_comm]

theorem Payments.aside (payments : Payments baseFeePerGas transactions before after) {address : Address}
    (sends : ∀ entry ∈ transactions, entry.2 ≠ address)
    (receives : ∀ entry ∈ transactions, entry.1.transaction.toAddress ≠ some address) :
    after.lookup address = before.lookup address := by
  induction payments with
  | nil => rfl
  | cons payment _ ih =>
    have apart := sends _ List.mem_cons_self
    have other := receives _ List.mem_cons_self
    rw [payment.paysTo] at other
    rw [ih (fun entry member => sends entry (List.mem_cons_of_mem _ member))
      (fun entry member => receives entry (List.mem_cons_of_mem _ member))]
    exact payment.aside address (Ne.symm apart) fun same => other (congrArg some same.symm)

end Payments

theorem executeTransactions_payments {host : Host} {header : Header} {blockHash : B256} {baseFeePerGas : U128}
    {i : Nat} {transactions : List Sent} {progress progress' : Progress} {p p' : InMemoryProvider}
    (ran : executeTransactions host header blockHash baseFeePerGas i transactions progress p = .ok (progress', p')) :
    Payments baseFeePerGas transactions p.state p'.state := by
  induction transactions generalizing i progress p with
  | nil =>
    cases ran
    exact .nil
  | cons entry rest ih =>
    obtain ⟨between, q, first, ran⟩ := Exec.bind_eq_ok.mp ran
    obtain ⟨_, _, _, _, _, present, charge, paysTo, credit, _, after⟩ := executeTransaction_ok first
    refine .cons (payment_of_writes present charge paysTo credit) ?_
    rw [← after]
    exact ih ran

end Accounts

section Receipts

/-- The receipt of the transaction at position `i` of a block. -/
structure ReceiptFor (host : Host) (header : Header) (transactions : List Sent) (i : Nat)
    (signedTx : SignedTransaction) (sender : Address) (receipt : Receipt) : Prop where
  hash : receipt.transactionHash = transactionHash host signedTx
  index : receipt.transactionIndex = BitVec.ofNat 64 i
  blockHash : receipt.blockHash = headerHash host header
  blockNumber : receipt.blockNumber = header.number
  fromAddress : receipt.fromAddress = sender
  toAddress : receipt.toAddress = signedTx.transaction.toAddress
  gasUsed : receipt.gasUsed = signedTx.transaction.gasLimit
  cumulative : receipt.cumulativeGasUsed.toNat = gasOf (transactions.take (i + 1))
  price : signedTx.transaction.effectiveGasPrice header.baseFeePerGas = .ok receipt.effectiveGasPrice
  status : receipt.status = true

/-- What the loop carries after the transactions of `front`. -/
structure Receipted (host : Host) (header : Header) (front : List Sent) (progress : Progress) : Prop where
  length : progress.receipts.length = front.length
  total : progress.cumulativeGasUsed.toNat = gasOf front
  last : progress.cumulativeGasUsed = (progress.receipts.getLast?.map (·.cumulativeGasUsed)).getD 0
  each : ∀ (i : Nat) signedTx sender, front[i]? = some (signedTx, sender) →
    ∃ receipt, progress.receipts[i]? = some receipt ∧ ReceiptFor host header front i signedTx sender receipt

theorem gasOf_concat (front : List Sent) (entry : Sent) :
    gasOf (front ++ [entry]) = gasOf front + entry.1.transaction.gasLimit.toNat := by
  simp [gasOf]

variable {host : Host} {header : Header} {front : List Sent} {progress progress' : Progress}

theorem Receipted.append {signedTx : SignedTransaction} {sender : Address} {price : U128}
    (receipted : Receipted host header front progress)
    (priced : signedTx.transaction.effectiveGasPrice header.baseFeePerGas = .ok price)
    (appended : appendReceipt host header (headerHash host header) front.length signedTx sender price progress =
      .ok progress') : Receipted host header (front ++ [(signedTx, sender)]) progress' := by
  obtain ⟨cumulative, sum, appended⟩ := Outcome.bind_eq_ok.mp appended
  rw [signedTransactionHash_eq, Outcome.mapErr_ok, Outcome.ok_bind] at appended
  rw [Outcome.okOr_eq_ok, checkedAdd_eq_some] at sum
  have total : cumulative.toNat = gasOf (front ++ [(signedTx, sender)]) := by
    rw [gasOf_concat, ← receipted.total, ← sum]
  cases appended
  refine ⟨?_, total, ?_, fun i signedTx' sender' found => ?_⟩
  · rw [List.length_append, List.length_append, receipted.length]
    rfl
  · simp
  · rcases getElem?_concat.mp found with old | ⟨rfl, same⟩
    · obtain ⟨receipt, present, described⟩ := receipted.each i signedTx' sender' old
      obtain ⟨inside, _⟩ := List.getElem?_eq_some_iff.mp old
      refine ⟨receipt, getElem?_concat.mpr (.inl present), { described with cumulative := ?_ }⟩
      rw [List.take_append_of_le_length inside]
      exact described.cumulative
    · cases same
      refine ⟨_, getElem?_concat.mpr (.inr ⟨receipted.length.symm, rfl⟩), rfl, rfl, rfl, rfl, rfl, rfl, rfl, ?_,
        priced, rfl⟩
      rw [List.take_of_length_le (by simp)]
      exact total

theorem executeTransactions_receipted {transactions : List Sent} {p p' : InMemoryProvider}
    (receipted : Receipted host header front progress)
    (ran : executeTransactions host header (headerHash host header) header.baseFeePerGas front.length transactions
      progress p = .ok (progress', p')) : Receipted host header (front ++ transactions) progress' := by
  induction transactions generalizing front progress p with
  | nil =>
    cases ran
    rw [List.append_nil]
    exact receipted
  | cons entry rest ih =>
    obtain ⟨between, q, first, ran⟩ := Exec.bind_eq_ok.mp ran
    obtain ⟨_, _, _, _, _, _, charge, _, _, appended, _⟩ := executeTransaction_ok first
    have next := receipted.append (chargeSender_ok charge).2.1 appended
    have length : (front ++ [(entry.1, entry.2)]).length = front.length + 1 := List.length_append
    have later := ih next (by rw [length]; exact ran)
    rw [List.append_assoc] at later
    exact later

end Receipts

/-- What a block that executes has done to the accounts, address by address, and what its output says. -/
structure ClosedForm (host : Host) (blockWithSenders : BlockWithSenders) (before after : HashMap Address Account)
    (output : ExecutionOutput) : Prop where
  balance : ∀ address, (balanceOf after address : Int) = balanceOf before address -
    spentBy blockWithSenders.block.header.baseFeePerGas address
      (blockWithSenders.block.transactions.zip blockWithSenders.senders) +
    receivedBy address (blockWithSenders.block.transactions.zip blockWithSenders.senders)
  nonce : ∀ address, nonceOf after address = nonceOf before address + blockWithSenders.senders.count address
  codeHash : ∀ address, codeHashOf after address = codeHashOf before address
  present : ∀ address, (after.lookup address).isSome ↔ (before.lookup address).isSome ∨
    ∃ signedTx ∈ blockWithSenders.block.transactions, signedTx.transaction.toAddress = some address
  aside : ∀ address, address ∉ blockWithSenders.senders →
    (∀ signedTx ∈ blockWithSenders.block.transactions, signedTx.transaction.toAddress ≠ some address) →
    after.lookup address = before.lookup address
  receipts : output.receipts.length = blockWithSenders.block.transactions.length
  receipt : ∀ (i : Nat) signedTx sender, blockWithSenders.block.transactions[i]? = some signedTx →
    blockWithSenders.senders[i]? = some sender → ∃ receipt, output.receipts[i]? = some receipt ∧
      ReceiptFor host blockWithSenders.block.header
        (blockWithSenders.block.transactions.zip blockWithSenders.senders) i signedTx sender receipt
  gasUsed : output.gasUsed = (output.receipts.getLast?.map (·.cumulativeGasUsed)).getD 0

/-- Execution in closed form, whatever accounts recur as senders and recipients. -/
theorem executeBlock_closed_form {host : Host} {blockWithSenders : BlockWithSenders} {output : ExecutionOutput}
    {provider after : InMemoryProvider}
    (paired : blockWithSenders.senders.length = blockWithSenders.block.transactions.length)
    (ran : BlockExecutor.execute host ValueTransferExecutor.mk blockWithSenders provider = .ok (output, after)) :
    ClosedForm host blockWithSenders provider.state after.state output := by
  have transfers := executeBlock_transfers ran
  change executeBlock _ _ _ = _ at ran
  rw [executeBlock, hashHeader_eq, Outcome.mapErr_ok, Exec.bind_ok (Exec.lift_ok _ _)] at ran
  obtain ⟨progress, q, executed, ran⟩ := Exec.bind_eq_ok.mp ran
  obtain ⟨stateRoot, _, rooted, ran⟩ := Exec.bind_eq_ok.mp ran
  obtain ⟨_, rfl⟩ := Exec.read_eq_ok.mp rooted
  cases ran
  have payments := executeTransactions_payments executed
  have start : Receipted host blockWithSenders.block.header [] ⟨0, [], FixedBytes.zero⟩ :=
    ⟨rfl, rfl, rfl, fun i signedTx sender found => by simp at found⟩
  have receipted := executeTransactions_receipted start executed
  rw [List.nil_append] at receipted
  have transactions : (blockWithSenders.block.transactions.zip blockWithSenders.senders).map Prod.fst =
      blockWithSenders.block.transactions := List.map_fst_zip paired.ge
  have senders : (blockWithSenders.block.transactions.zip blockWithSenders.senders).map Prod.snd =
      blockWithSenders.senders := List.map_snd_zip paired.le
  refine ⟨fun address => ?_, fun address => ?_, payments.codeHashes, fun address => ?_, fun address apart other => ?_,
    ?_, fun i signedTx sender atTx atSender => ?_, receipted.last⟩
  · have balances := payments.balances address
    omega
  · rw [transfers.nonces address, senders]
  · rw [payments.present]
    refine or_congr_right ⟨?_, ?_⟩
    · rintro ⟨entry, member, paysTo⟩
      exact ⟨entry.1, transactions ▸ List.mem_map_of_mem member, paysTo⟩
    · rintro ⟨signedTx, member, paysTo⟩
      rw [← transactions] at member
      obtain ⟨entry, inside, rfl⟩ := List.mem_map.mp member
      exact ⟨entry, inside, paysTo⟩
  · refine payments.aside (fun entry member same => apart ?_) fun entry member => other entry.1 ?_
    · rw [← same, ← senders]
      exact List.mem_map_of_mem member
    · rw [← transactions]
      exact List.mem_map_of_mem member
  · rw [receipted.length, ← List.length_map Prod.fst, transactions]
  · exact receipted.each i signedTx sender (List.getElem?_zip_eq_some.mpr ⟨atTx, atSender⟩)

section Sample

/-- An account of 100. -/
def paymentProvider : InMemoryProvider :=
  freshProvider ((∅ : HashMap Address Account).insert (.ofNat 1) { Account.default with balance := 100 })

/-- A transfer of 30 that creates its recipient, and a transfer of 4 from the recipient to itself. -/
def paymentBlock : BlockWithSenders where
  block :=
    { header := ⟨.zero, .zero, .zero, .zero, 0, 0, 1, 1⟩
      transactions :=
        [⟨.legacy 0 1 2 (some (.ofNat 2)) 30 [], 0, .zero, .zero⟩,
          ⟨.legacy 0 1 3 (some (.ofNat 2)) 4 [], 0, .zero, .zero⟩] }
  senders := [.ofNat 1, .ofNat 2]

theorem executeBlock_closed_form_self_transfer : ∃ output after,
    BlockExecutor.execute (Host.ofGraph [] []) ValueTransferExecutor.mk paymentBlock paymentProvider =
      .ok (output, after) ∧ balanceOf after.state (.ofNat 1) = 68 ∧ balanceOf after.state (.ofNat 2) = 27 := by
  have executes : ∃ output after, BlockExecutor.execute (Host.ofGraph [] []) ValueTransferExecutor.mk paymentBlock
      paymentProvider = .ok (output, after) := ⟨_, _, rfl⟩
  obtain ⟨output, after, ran⟩ := executes
  have closed := executeBlock_closed_form rfl ran
  refine ⟨output, after, ran, Int.ofNat.inj ((closed.balance _).trans ?_), Int.ofNat.inj ((closed.balance _).trans ?_)⟩
  · decide
  · decide

end Sample

end MiniEthNode
