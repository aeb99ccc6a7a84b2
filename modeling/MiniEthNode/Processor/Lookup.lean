import MiniEthNode.Processor.Replay

namespace MiniEthNode
open Rust

section Committed
variable {rules : Rules} {before after : Ledger} {blocks : List Block}

/-- The index entries of the transactions of a list of blocks. -/
def chainEntries (host : Host) (blocks : List Block) : List (B256 × (SignedTransaction × BlockNumber)) :=
  blocks.flatMap fun block => InMemoryProvider.indexEntries host block.header.number block.transactions

theorem Committed.transactions (committed : Committed rules before blocks after) :
    after.provider.transactions = HashMap.insertAll before.provider.transactions (chainEntries rules.host blocks) := by
  induction committed with
  | nil => rfl
  | cons step _ ih =>
    obtain ⟨parent, senders, state, totalDifficulty, commit, rfl⟩ := judge_ok step
    rw [ih, chainEntries, chainEntries, List.flatMap_cons, HashMap.insertAll_append]
    rfl

/-- No commit writes a receipt. -/
theorem Committed.receipts (committed : Committed rules before blocks after) :
    after.provider.receipts = before.provider.receipts := by
  induction committed with
  | nil => rfl
  | cons step _ ih =>
    obtain ⟨parent, senders, state, totalDifficulty, commit, rfl⟩ := judge_ok step
    exact ih

theorem mem_chainEntries {host : Host} {hash : B256} {signedTx : SignedTransaction} {number : BlockNumber} :
    (hash, (signedTx, number)) ∈ chainEntries host blocks ↔
      ∃ block ∈ blocks, signedTx ∈ block.transactions ∧ transactionHash host signedTx = hash ∧
        block.header.number = number := by
  simp only [chainEntries, InMemoryProvider.indexEntries, List.mem_flatMap, List.mem_map, Prod.mk.injEq]
  constructor
  · rintro ⟨block, member, signedTx', inside, rfl, rfl, rfl⟩
    exact ⟨block, member, inside, rfl, rfl⟩
  · rintro ⟨block, member, inside, rfl, rfl⟩
    exact ⟨block, member, signedTx, inside, rfl, rfl, rfl⟩

end Committed

section Reached
variable {host : Host} {genesis : Genesis} {processor : BlockProcessor}

/-- No two of the committed transactions have the same hash. -/
def DistinctHashes (host : Host) (processor : BlockProcessor) : Prop :=
  ∀ first ∈ transactionsOf processor.committedBlocks, ∀ second ∈ transactionsOf processor.committedBlocks,
    signedTransactionHash host first = signedTransactionHash host second → first = second

theorem Reach.getTransaction (reach : Reach host genesis processor) (distinct : DistinctHashes host processor)
    {block : Block} {signedTx : SignedTransaction} (member : block ∈ processor.committedBlocks)
    (inside : signedTx ∈ block.transactions) :
    processor.pipeline.provider.getTransaction (transactionHash host signedTx) = .ok signedTx := by
  have index : processor.pipeline.provider.transactions = HashMap.insertAll _ _ := reach.holds.2.transactions
  have written : transactionHash host signedTx ∈
      (chainEntries host processor.committedBlocks).map Prod.fst :=
    List.mem_map.mpr ⟨(_, (signedTx, block.header.number)), mem_chainEntries.mpr ⟨block, member, inside, rfl, rfl⟩, rfl⟩
  obtain ⟨⟨stored, number⟩, found, entry⟩ := HashMap.lookup_insertAll_of_key
    (m := (genesis.ledger host).provider.transactions) written
  obtain ⟨other, among, within, same, _⟩ := mem_chainEntries.mp entry
  have equal : stored = signedTx := by
    refine distinct stored (List.mem_flatMap.mpr ⟨other, among, within⟩) signedTx
      (List.mem_flatMap.mpr ⟨block, member, inside⟩) ?_
    rw [signedTransactionHash_eq, signedTransactionHash_eq, same]
  rw [InMemoryProvider.getTransaction, index]
  change Outcome.okOr (Option.map _ ((HashMap.insertAll _ (chainEntries host _)).lookup _)) _ = _
  rw [found, Option.map_some, Outcome.okOr_some, equal]

theorem Reach.getBlockTransactions (reach : Reach host genesis processor) {block : Block}
    (member : block ∈ processor.committedBlocks) :
    processor.pipeline.provider.getBlockTransactions block.header.number = .ok block.transactions := by
  obtain ⟨holds, _⟩ := reach.holds
  obtain ⟨i, found⟩ := List.mem_iff_getElem?.mp (List.mem_cons_of_mem genesis.block member)
  have stored : processor.pipeline.provider.blocks.lookup block.header.number = _ := holds.stored _
  rw [holds.numbered i block found, found] at stored
  rw [InMemoryProvider.getBlockTransactions, stored]
  rfl

theorem Reach.getReceipt (reach : Reach host genesis processor) (hash : B256) :
    processor.pipeline.provider.getReceipt hash = .err (.receiptNotFound hash) := by
  have receipts : processor.pipeline.provider.receipts = ∅ := reach.holds.2.receipts
  rw [InMemoryProvider.getReceipt, receipts]
  rfl

/-- A committed transaction is found by its hash, and the transactions of a committed block by its
number. No receipt is found, whatever the hash. -/
theorem committed_transactions_found (reach : Reach host genesis processor)
    (distinct : DistinctHashes host processor) {block : Block} (member : block ∈ processor.committedBlocks) (i : Nat)
    {signedTx : SignedTransaction} (atIndex : block.transactions[i]? = some signedTx) :
    ∃ hash, signedTransactionHash host signedTx = .ok hash ∧
      processor.pipeline.provider.getTransaction hash = .ok signedTx ∧
      processor.pipeline.provider.getBlockTransactions block.header.number = .ok block.transactions ∧
      processor.pipeline.provider.getReceipt hash = .err (.receiptNotFound hash) :=
  ⟨_, signedTransactionHash_eq host signedTx,
    reach.getTransaction distinct member (List.mem_of_getElem? atIndex), reach.getBlockTransactions member,
    reach.getReceipt _⟩

theorem sample_both_stored (both : processor.committedBlocks = [sampleFirst.block, sampleSecond.block]) :
    DistinctHashes sampleHost processor ∧ sampleFirst.block ∈ processor.committedBlocks := by
  rw [DistinctHashes, both]
  exact ⟨by simp [transactionsOf, sampleFirst, sampleSecond, sampleBlock], List.mem_cons_self⟩

theorem committed_transactions_found_sample : ∃ processor hash, Reach sampleHost sampleGenesis processor ∧
    signedTransactionHash sampleHost sampleTransfer = .ok hash ∧
    processor.pipeline.provider.getTransaction hash = .ok sampleTransfer := by
  obtain ⟨processor, reach, both⟩ := sample_reach_both
  obtain ⟨distinct, member⟩ := sample_both_stored both
  have atIndex : sampleFirst.block.transactions[0]? = some sampleTransfer := rfl
  obtain ⟨hash, hashed, found, _⟩ := committed_transactions_found reach distinct member 0 atIndex
  exact ⟨processor, hash, reach, hashed, found⟩

/-- The receipt that the execution of a committed transaction has returned is not found. -/
theorem committed_receipt_missing : ∃ processor hash, Reach sampleHost sampleGenesis processor ∧
    DistinctHashes sampleHost processor ∧ sampleFirst.block ∈ processor.committedBlocks ∧
    sampleFirst.block.transactions[0]? = some sampleTransfer ∧
    signedTransactionHash sampleHost sampleTransfer = .ok hash ∧
    processor.pipeline.provider.getReceipt hash = .err (.receiptNotFound hash) := by
  obtain ⟨processor, reach, both⟩ := sample_reach_both
  obtain ⟨distinct, member⟩ := sample_both_stored both
  exact ⟨processor, _, reach, distinct, member, rfl, signedTransactionHash_eq _ _, reach.getReceipt _⟩

end Reached

end MiniEthNode
