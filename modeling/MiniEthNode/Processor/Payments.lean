import MiniEthNode.Execution.ClosedForm
import MiniEthNode.Processor.Replay

namespace MiniEthNode
open Rust

/-- Who sends one transaction at most pays for one at most. -/
theorem spentBy_le {baseFeePerGas : U128} {cost : Nat} {transactions : List Sent}
    (nodup : (transactions.map Prod.snd).Nodup)
    (costs : ∀ entry ∈ transactions, costOf baseFeePerGas entry.1.transaction = cost) (address : Address) :
    spentBy baseFeePerGas address transactions ≤ cost := by
  induction transactions with
  | nil => exact Nat.zero_le _
  | cons entry rest ih =>
    obtain ⟨fresh, nodup⟩ := List.nodup_cons.mp nodup
    obtain ⟨here, costs⟩ := List.forall_mem_cons.mp costs
    unfold spentBy
    by_cases own : entry.2 = address
    · have others : rest.filter (fun entry => entry.2 = address) = [] := by
        refine List.filter_eq_nil_iff.mpr fun other member same => fresh ?_
        rw [own, ← of_decide_eq_true same]
        exact List.mem_map_of_mem member
      rw [List.filter_cons_of_pos (by simpa using own), others, List.map_singleton, List.sum_singleton, here]
    · rw [List.filter_cons_of_neg (by simpa using own)]
      exact ih nodup costs

namespace Commit
variable {rules : Rules} {ledger : Ledger} {block parent : Block} {senders : List Address} {output : ExecutionOutput}
  {state : HashMap Address Account} {totalDifficulty : U128}

/-- The loop over the transactions, from the accounts before the block to those after it. -/
theorem executedTransactions (commit : Commit rules ledger block parent senders output state totalDifficulty) :
    ∃ progress after, executeTransactions rules.host block.header (headerHash rules.host block.header)
      block.header.baseFeePerGas 0 (block.transactions.zip senders) ⟨0, [], FixedBytes.zero⟩ ledger.provider =
        .ok (progress, after) ∧ after.state = state ∧ output.receipts = progress.receipts := by
  obtain ⟨after, ran, rfl⟩ := executeBlock_of_executeOn commit.executed
  rw [executeBlock, hashHeader_eq, Outcome.mapErr_ok, Exec.bind_ok (Exec.lift_ok _ _)] at ran
  obtain ⟨progress, _, executed, ran⟩ := Exec.bind_eq_ok.mp ran
  obtain ⟨_, _, rooted, ran⟩ := Exec.bind_eq_ok.mp ran
  obtain ⟨_, rfl⟩ := Exec.read_eq_ok.mp rooted
  cases ran
  exact ⟨progress, _, executed, rfl, rfl⟩

theorem payments (commit : Commit rules ledger block parent senders output state totalDifficulty) :
    Payments block.header.baseFeePerGas (block.transactions.zip senders) ledger.provider.state state := by
  obtain ⟨_, _, executed, rfl, _⟩ := commit.executedTransactions
  exact executeTransactions_payments executed

/-- An account that exists does not go away. -/
theorem present (commit : Commit rules ledger block parent senders output state totalDifficulty) {address : Address}
    (present : (ledger.provider.state.lookup address).isSome) : (state.lookup address).isSome :=
  (commit.payments.present address).mpr (.inl present)

/-- There is a receipt for each transaction. -/
theorem receipts (commit : Commit rules ledger block parent senders output state totalDifficulty) :
    output.receipts.length = block.transactions.length := by
  obtain ⟨progress, _, executed, _, same⟩ := commit.executedTransactions
  have start : Receipted rules.host block.header [] ⟨0, [], FixedBytes.zero⟩ :=
    ⟨rfl, rfl, rfl, fun i signedTx sender found => by simp at found⟩
  have receipted := (executeTransactions_receipted start executed).length
  have paired := congrArg List.length commit.paired
  rw [same, receipted, List.nil_append, ← paired, List.length_map]

theorem nonces (commit : Commit rules ledger block parent senders output state totalDifficulty) (address : Address) :
    nonceOf state address = nonceOf ledger.provider.state address + senders.count address := by
  have nonces := commit.transfers.nonces address
  rwa [List.map_snd_zip (recoverSenders_ok commit.recovered).length_eq.ge] at nonces

theorem balance_ge (commit : Commit rules ledger block parent senders output state totalDifficulty)
    (nodup : senders.Nodup) {cost : Nat}
    (costs : ∀ signedTx ∈ block.transactions, costOf block.header.baseFeePerGas signedTx.transaction = cost)
    (address : Address) : balanceOf ledger.provider.state address ≤ balanceOf state address + cost := by
  have balances := commit.payments.balances address
  have spent : spentBy block.header.baseFeePerGas address (block.transactions.zip senders) ≤ cost := by
    refine spentBy_le ?_ (fun entry member => costs entry.1 (List.of_mem_zip member).1) address
    rwa [List.map_snd_zip (recoverSenders_ok commit.recovered).length_eq.ge]
  omega

end Commit

end MiniEthNode
