import MiniEthNode.Execution.Transfer
import MiniEthNode.Processor.Chain

namespace MiniEthNode
open Rust

/-- The executor run on one block after the other, with the senders recovered under a chain id. -/
def replay (host : Host) (chainId : U64) : List Block → Exec InMemoryProvider ProcessorError Unit
  | [] => pure ()
  | block :: rest => do
    let senders ← Exec.lift (BlockProcessor.recoverSenders host chainId block.transactions)
    let _ ← Exec.mapErr .execution (BlockExecutor.execute host ValueTransferExecutor.mk ⟨block, senders⟩)
    replay host chainId rest

/-- Execution on any provider with the same accounts is execution on a fresh one. -/
theorem executeBlock_of_executeOn {host : Host} {blockWithSenders : BlockWithSenders} {provider : InMemoryProvider}
    {output : ExecutionOutput} {state : HashMap Address Account}
    (executed : executeOn host blockWithSenders provider.state = .ok (output, state)) :
    ∃ after, executeBlock host blockWithSenders provider = .ok (output, after) ∧ after.state = state := by
  have agree := executeBlock_relates (P := fun _ => True) (Q := fun _ => True) (fun _ _ _ _ => trivial)
    (fun _ _ _ _ => trivial) host blockWithSenders provider (freshProvider provider.state) ⟨rfl, trivial, trivial⟩
  unfold executeOn at executed
  rcases agree.inv with ⟨_, here, there, first, second, same, _⟩ | ⟨_, _, _, _, second, _⟩ | ⟨_, second⟩
  · rw [second] at executed
    cases executed
    exact ⟨here, first, same⟩
  · rw [second] at executed
    cases executed
  · rw [second] at executed
    cases executed

theorem Committed.replays {rules : Rules} {before after : Ledger} {blocks : List Block}
    (committed : Committed rules before blocks after) {provider : InMemoryProvider}
    (same : provider.state = before.provider.state) :
    ∃ replayed, replay rules.host rules.chainId blocks provider = .ok ((), replayed) ∧
      replayed.state = after.provider.state := by
  induction committed generalizing provider with
  | nil => exact ⟨provider, rfl, same⟩
  | cons step _ ih =>
    obtain ⟨parent, senders, state, totalDifficulty, commit, rfl⟩ := judge_ok step
    have executed := commit.executed
    rw [← same] at executed
    obtain ⟨between, ran, states⟩ := executeBlock_of_executeOn executed
    obtain ⟨replayed, later, last⟩ := ih states
    refine ⟨replayed, ?_, last⟩
    rw [replay, commit.recovered, Exec.bind_ok (Exec.lift_ok _ _),
      Exec.bind_ok (by simp only [Exec.mapErr, BlockExecutor.execute, ran]; rfl), later]

/-- The transactions of a list of blocks in order. -/
def transactionsOf (blocks : List Block) : List SignedTransaction := blocks.flatMap (·.transactions)

/-- The fees that the transactions of a block pay. -/
def feesOf (block : Block) : Nat :=
  (block.transactions.map fun signedTx => feeOf block.header.baseFeePerGas signedTx.transaction).sum

/-- The transactions that an account sent. -/
def sentBy (host : Host) (chainId : U64) (address : Address) (transactions : List SignedTransaction) :
    List SignedTransaction :=
  transactions.filter fun signedTx => recoverSender host signedTx chainId = .ok address

theorem recoverSenders_ok {host : Host} {chainId : U64} {transactions : List SignedTransaction}
    {senders : List Address} (recovered : BlockProcessor.recoverSenders host chainId transactions = .ok senders) :
    List.Forall₂ (fun signedTx sender => recoverSender host signedTx chainId = .ok sender) transactions senders := by
  induction transactions generalizing senders with
  | nil =>
    cases recovered
    exact .nil
  | cons tx rest ih =>
    obtain ⟨sender, first, recovered⟩ := Outcome.bind_eq_ok.mp recovered
    obtain ⟨later, second, same⟩ := Outcome.bind_eq_ok.mp recovered
    cases same
    exact .cons (Outcome.mapErr_eq_ok.mp first) (ih second)

theorem recoverSenders_of {host : Host} {chainId : U64} {transactions : List SignedTransaction}
    {senders : List Address}
    (each : List.Forall₂ (fun signedTx sender => recoverSender host signedTx chainId = .ok sender) transactions senders) :
    BlockProcessor.recoverSenders host chainId transactions = .ok senders := by
  induction each with
  | nil => rfl
  | cons first _ ih => rw [BlockProcessor.recoverSenders, first, Outcome.mapErr_ok, Outcome.ok_bind, ih, Outcome.ok_bind]

/-- The transactions of a committed block, each with its sender, turned the old accounts into the new ones. -/
theorem Commit.transfers {rules : Rules} {ledger : Ledger} {block parent : Block} {senders : List Address}
    {output : ExecutionOutput} {state : HashMap Address Account} {totalDifficulty : U128}
    (commit : Commit rules ledger block parent senders output state totalDifficulty) :
    Transfers block.header.baseFeePerGas (block.transactions.zip senders) ledger.provider.state state := by
  obtain ⟨after, ran, rfl⟩ := executeBlock_of_executeOn commit.executed
  exact executeBlock_transfers ran

theorem Commit.paired {rules : Rules} {ledger : Ledger} {block parent : Block} {senders : List Address}
    {output : ExecutionOutput} {state : HashMap Address Account} {totalDifficulty : U128}
    (commit : Commit rules ledger block parent senders output state totalDifficulty) :
    (block.transactions.zip senders).map Prod.fst = block.transactions :=
  List.map_fst_zip (recoverSenders_ok commit.recovered).length_eq.le

theorem Committed.supply {rules : Rules} {before after : Ledger} {blocks : List Block}
    (committed : Committed rules before blocks after) :
    totalBalance after.provider.state + (blocks.map feesOf).sum = totalBalance before.provider.state := by
  induction committed with
  | nil => rfl
  | @cons before between after block output rest step _ ih =>
    obtain ⟨parent, senders, state, totalDifficulty, commit, rfl⟩ := judge_ok step
    have supply := commit.transfers.supply
    have fees : ((block.transactions.zip senders).map fun entry =>
        feeOf block.header.baseFeePerGas entry.1.transaction).sum = feesOf block := by
      rw [feesOf, ← commit.paired, List.map_map, commit.paired]
      rfl
    rw [fees] at supply
    have state' : (before.extend rules.host block state totalDifficulty).provider.state = state := rfl
    rw [state'] at ih
    rw [List.map_cons, List.sum_cons]
    omega

theorem Committed.priced {rules : Rules} {before after : Ledger} {blocks : List Block}
    (committed : Committed rules before blocks after) :
    ∀ block ∈ blocks, ∀ signedTx ∈ block.transactions,
      ∃ price, signedTx.transaction.effectiveGasPrice block.header.baseFeePerGas = .ok price := by
  induction committed with
  | nil => simp
  | cons step _ ih =>
    obtain ⟨parent, senders, state, totalDifficulty, commit, _⟩ := judge_ok step
    intro block member signedTx inside
    rcases List.mem_cons.mp member with rfl | later
    · rw [← commit.paired] at inside
      obtain ⟨entry, paired, rfl⟩ := List.mem_map.mp inside
      exact commit.transfers.priced entry paired
    · exact ih block later signedTx inside

/-- Each account has sent its transactions under consecutive nonces, from its old one to its new one. -/
def Consecutive (host : Host) (chainId : U64) (transactions : List SignedTransaction)
    (before after : HashMap Address Account) : Prop :=
  ∀ address, ((sentBy host chainId address transactions).map fun signedTx => signedTx.transaction.nonce.toNat) =
      List.range' (nonceOf before address) (sentBy host chainId address transactions).length ∧
    nonceOf after address = nonceOf before address + (sentBy host chainId address transactions).length

theorem Consecutive.append {host : Host} {chainId : U64} {first second : List SignedTransaction}
    {before between after : HashMap Address Account} (earlier : Consecutive host chainId first before between)
    (later : Consecutive host chainId second between after) :
    Consecutive host chainId (first ++ second) before after := by
  intro address
  obtain ⟨here, reached⟩ := earlier address
  obtain ⟨there, ended⟩ := later address
  have split : sentBy host chainId address (first ++ second) =
      sentBy host chainId address first ++ sentBy host chainId address second := List.filter_append ..
  rw [split, List.map_append, List.length_append, here, there, reached, ended, reached]
  exact ⟨List.range'_append_1 .., by omega⟩

theorem Transfer.consecutive {host : Host} {chainId : U64} {baseFeePerGas : U128} {signedTx : SignedTransaction}
    {sender : Address} {before after : HashMap Address Account}
    (recovered : recoverSender host signedTx chainId = .ok sender)
    (transfer : Transfer baseFeePerGas signedTx.transaction sender before after) :
    Consecutive host chainId [signedTx] before after := by
  intro address
  have nonce := transfer.nonces address
  by_cases own : address = sender
  · subst own
    rw [if_pos rfl] at nonce
    have sent : sentBy host chainId address [signedTx] = [signedTx] := by simp [sentBy, recovered]
    rw [sent, nonce, List.map_singleton, transfer.nonce]
    exact ⟨rfl, rfl⟩
  · rw [if_neg own] at nonce
    have sent : sentBy host chainId address [signedTx] = [] := by
      simp [sentBy, recovered, Ne.symm own]
    rw [sent, nonce]
    exact ⟨rfl, rfl⟩

theorem Transfers.consecutive {host : Host} {chainId : U64} {baseFeePerGas : U128}
    {transactions : List SignedTransaction} {senders : List Address} {before after : HashMap Address Account}
    (recovered : List.Forall₂ (fun signedTx sender => recoverSender host signedTx chainId = .ok sender)
      transactions senders)
    (transfers : Transfers baseFeePerGas (transactions.zip senders) before after) :
    Consecutive host chainId transactions before after := by
  induction recovered generalizing before with
  | nil =>
    cases transfers
    exact fun address => ⟨rfl, rfl⟩
  | @cons signedTx sender rest senders' first _ ih =>
    cases transfers with
    | cons transfer later =>
      exact Consecutive.append (transfer.consecutive first) (ih later)

theorem Committed.consecutive {rules : Rules} {before after : Ledger} {blocks : List Block}
    (committed : Committed rules before blocks after) :
    Consecutive rules.host rules.chainId (transactionsOf blocks) before.provider.state after.provider.state := by
  induction committed with
  | nil => exact fun address => ⟨rfl, rfl⟩
  | cons step _ ih =>
    obtain ⟨parent, senders, state, totalDifficulty, commit, rfl⟩ := judge_ok step
    exact Consecutive.append (commit.transfers.consecutive (recoverSenders_ok commit.recovered)) ih

theorem Committed.recovered {rules : Rules} {before after : Ledger} {blocks : List Block}
    (committed : Committed rules before blocks after) :
    ∀ signedTx ∈ transactionsOf blocks, ∃ sender, recoverSender rules.host signedTx rules.chainId = .ok sender := by
  induction committed with
  | nil => simp [transactionsOf]
  | @cons before between after block output rest step _ ih =>
    obtain ⟨parent, senders, state, totalDifficulty, commit, _⟩ := judge_ok step
    intro signedTx member
    rcases List.mem_append.mp member with here | there
    · change signedTx ∈ block.transactions at here
      rw [← commit.paired] at here
      obtain ⟨entry, paired, rfl⟩ := List.mem_map.mp here
      exact ⟨entry.2, List.forall₂_zip (recoverSenders_ok commit.recovered) paired⟩
    · exact ih signedTx there

/-- Of two transactions with one sender the later one carries the higher nonce. -/
theorem Consecutive.pairwise {host : Host} {chainId : U64} {transactions : List SignedTransaction}
    {before after : HashMap Address Account} (consecutive : Consecutive host chainId transactions before after) :
    transactions.Pairwise fun first second => ∀ sender, recoverSender host first chainId = .ok sender →
      recoverSender host second chainId = .ok sender →
      first.transaction.nonce.toNat < second.transaction.nonce.toNat := by
  rw [List.pairwise_iff_forall_sublist]
  intro first second sub sender own own'
  have kept : [first, second].Sublist (sentBy host chainId sender transactions) := by
    have filtered := sub.filter fun signedTx => decide (recoverSender host signedTx chainId = .ok sender)
    simpa [sentBy, own, own'] using filtered
  have nonces := kept.map fun signedTx => signedTx.transaction.nonce.toNat
  rw [(consecutive sender).1] at nonces
  have sorted := List.pairwise_lt_range' (s := nonceOf before sender)
    (n := (sentBy host chainId sender transactions).length) 1
  exact List.pairwise_iff_forall_sublist.mp sorted nonces

section Reached
variable {host : Host} {genesis : Genesis} {processor : BlockProcessor}

/-- In every state the accounts are what a fresh provider with the genesis accounts holds after
executing the committed blocks in order, and no journal is open. -/
theorem state_eq_replay (reach : Reach host genesis processor) :
    ∃ replayed, replay host genesis.chainId processor.committedBlocks (freshProvider genesis.accounts) =
        .ok ((), replayed) ∧
      processor.pipeline.provider.state = replayed.state ∧ processor.pipeline.provider.journal = none := by
  obtain ⟨_, committed⟩ := reach.holds
  have start : (freshProvider genesis.accounts).state = (genesis.ledger host).provider.state := rfl
  obtain ⟨replayed, ran, same⟩ := committed.replays start
  exact ⟨replayed, ran, same.symm, reach.settled.1⟩

theorem state_eq_replay_two_blocks : ∃ processor, Reach sampleHost sampleGenesis processor ∧
    ∃ replayed, replay sampleHost 1 [sampleFirst.block, sampleSecond.block] (freshProvider sampleGenesis.accounts) =
        .ok ((), replayed) ∧
      processor.pipeline.provider.state = replayed.state ∧ processor.pipeline.provider.journal = none := by
  obtain ⟨processor, reach, both⟩ := sample_reach_both
  have same := state_eq_replay reach
  rw [both] at same
  exact ⟨processor, reach, same⟩

/-- In every state the balances and the fees of the committed transactions together are what the
genesis accounts held, and every committed transaction has a price. -/
theorem supply_accounting (reach : Reach host genesis processor) :
    totalBalance processor.pipeline.provider.state + (processor.committedBlocks.map feesOf).sum =
        totalBalance genesis.accounts ∧
      ∀ block ∈ processor.committedBlocks, ∀ signedTx ∈ block.transactions,
        ∃ price, signedTx.transaction.effectiveGasPrice block.header.baseFeePerGas = .ok price := by
  obtain ⟨_, committed⟩ := reach.holds
  exact ⟨committed.supply, committed.priced⟩

/-- The transfer pays 21 times 60, and the empty block nothing. -/
theorem supply_accounting_two_blocks : ∃ processor, Reach sampleHost sampleGenesis processor ∧
    totalBalance processor.pipeline.provider.state + 1260 = 2000 := by
  obtain ⟨processor, reach, both⟩ := sample_reach_both
  have supply := (supply_accounting reach).1
  rw [both] at supply
  exact ⟨processor, reach, supply⟩

/-- In every state the committed transactions have all a sender, each sender's transactions carry
consecutive nonces from the genesis nonce on, and so no nonce of a sender and no transaction comes twice. -/
theorem replay_protection (reach : Reach host genesis processor) :
    (∀ signedTx ∈ transactionsOf processor.committedBlocks,
      ∃ sender, recoverSender host signedTx genesis.chainId = .ok sender) ∧
    (∀ address,
      ((sentBy host genesis.chainId address (transactionsOf processor.committedBlocks)).map
        fun signedTx => signedTx.transaction.nonce.toNat) =
      List.range' (nonceOf genesis.accounts address)
        (sentBy host genesis.chainId address (transactionsOf processor.committedBlocks)).length) ∧
    (∀ (i j : Nat) first second sender, i < j → (transactionsOf processor.committedBlocks)[i]? = some first →
      (transactionsOf processor.committedBlocks)[j]? = some second →
      recoverSender host first genesis.chainId = .ok sender →
      recoverSender host second genesis.chainId = .ok sender →
      first.transaction.nonce ≠ second.transaction.nonce) ∧
    (transactionsOf processor.committedBlocks).Nodup := by
  obtain ⟨_, committed⟩ := reach.holds
  have recovered := committed.recovered
  have consecutive := committed.consecutive
  have rising := consecutive.pairwise
  refine ⟨recovered, fun address => (consecutive address).1, ?_, ?_⟩
  · intro i j first second sender before atFirst atSecond own own'
    obtain ⟨inside, rfl⟩ := List.getElem?_eq_some_iff.mp atFirst
    obtain ⟨inside', rfl⟩ := List.getElem?_eq_some_iff.mp atSecond
    have below := List.pairwise_iff_getElem.mp rising i j inside inside' before sender own own'
    intro same
    rw [same] at below
    exact Nat.lt_irrefl _ below
  · refine rising.imp_of_mem ?_
    rintro first second member _ below rfl
    obtain ⟨sender, own⟩ := recovered first member
    exact Nat.lt_irrefl _ (below sender own own)

/-- The digests and the recovered key of a second transfer. -/
def replayHost : Host := sampleHost.extend [
  (toBeBytes 30 0xdd0101159422222222222222222222222222222222222222220780018080,
    .ofNat 0xc4075f7a49d94cbeee8bc4f5aeac3f0a7f17480c81c3bec70bed42f37fc4ad2a),
  (toBeBytes 40 0xf87ca0458472e7909648dff74228f60aa2e3ea4a2528af505c9f3eb857ce06e6ac15869400000000 ++
      toBeBytes 40 0x00000000000000000000000000000000a00000000000000000000000000000000000000000000000 ++
      toBeBytes 40 0x000000000000000000a0000000000000000000000000000000000000000000000000000000000000 ++
      toBeBytes 6 0x000064150202,
    .ofNat 0x6830b6a04168ea8981c8fbc04dca67404d4064ea26442cc365fc6c264fa9e7cf),
  (toBeBytes 40 0xf85d010115942222222222222222222222222222222222222222078026a0e9f8fa10e9156499060c ++
      toBeBytes 40 0xd084c2691498cf2a8e3a65df224eab557c5ec6a8a075a04eb8fdfad43ea9cd9db4bcfce7988b6556 ++
      toBeBytes 15 0x0f6fe2aeeb67a0b21c01a255a38bf9,
    .ofNat 0x4bf7435960e41ec752f10ced1ee51865b7482fc25e0a68a158762b9a4561027d),
  (toBeBytes 40 0xf85d943222222222222222222222222222222222222222b846f844800ea000000000000000000000 ++
      toBeBytes 40 0x00000000000000000000000000000000000000000000a0c5d2460186f7233c927e7db2dcc703c0e5 ++
      toBeBytes 15 0x00b653ca82273b7bfad8045d85a470,
    .ofNat 0xf2ad6786a8a1eb797114e2e3763e8541294c5b074b7e19390282dd85cd09b36f),
  (toBeBytes 40 0xf85f943917b4d08a3a9e2b975ff44088133b9b64230de8b848f846028202c1a00000000000000000 ++
      toBeBytes 40 0x000000000000000000000000000000000000000000000000a0c5d2460186f7233c927e7db2dcc703 ++
      toBeBytes 17 0xc0e500b653ca82273b7bfad8045d85a470,
    .ofNat 0xc170174b193867d8b9c459de7e7940c4f6bf6525af856858b8529a8f935c32da),
  (toBeBytes 40 0xf8518080a0f2ad6786a8a1eb797114e2e3763e8541294c5b074b7e19390282dd85cd09b36f80a0c1 ++
      toBeBytes 40 0x70174b193867d8b9c459de7e7940c4f6bf6525af856858b8529a8f935c32da808080808080808080 ++
      toBeBytes 3 0x808080,
    .ofNat 0x9b46ecab769bfff36b493680a2bda29a95233b44711e3492e3c0c06248bec15f)]
  [((.ofNat 0xc4075f7a49d94cbeee8bc4f5aeac3f0a7f17480c81c3bec70bed42f37fc4ad2a,
      toBeBytes 32 0xe9f8fa10e9156499060cd084c2691498cf2a8e3a65df224eab557c5ec6a8a075 ++
        toBeBytes 32 0x4eb8fdfad43ea9cd9db4bcfce7988b65560f6fe2aeeb67a0b21c01a255a38bf9, 1),
    samplePublicKey)]

/-- The sender of the first transfer sends once more. -/
def replayTransfer : SignedTransaction where
  transaction := .legacy 1 1 21 (some (.ofNat 0x2222222222222222222222222222222222222222)) 7 []
  v := 38
  r := .ofNat 0xe9f8fa10e9156499060cd084c2691498cf2a8e3a65df224eab557c5ec6a8a075
  s := .ofNat 0x4eb8fdfad43ea9cd9db4bcfce7988b65560f6fe2aeeb67a0b21c01a255a38bf9

def replaySecond : PendingBlock :=
  ⟨sampleBlock 0x458472e7909648dff74228f60aa2e3ea4a2528af505c9f3eb857ce06e6ac1586 21 2 [replayTransfer], ⟨0⟩⟩

/-- Two transfers of one sender, in two blocks. -/
theorem replay_protection_two_blocks : ∃ processor, Reach replayHost sampleGenesis processor ∧
    transactionsOf processor.committedBlocks = [sampleTransfer, replayTransfer] ∧
    (transactionsOf processor.committedBlocks).Nodup ∧
    ((sentBy replayHost 1 sampleSender [sampleTransfer, replayTransfer]).map
      fun signedTx => signedTx.transaction.nonce.toNat) = [0, 1] := by
  have committed : ((deliverAll replayHost (sampleGenesis.processor replayHost) [sampleFirst, replaySecond]).map
      fun run => transactionsOf run.2.committedBlocks) = some [sampleTransfer, replayTransfer] := by decide +kernel
  obtain ⟨run, ran, both⟩ := Option.map_eq_some_iff.mp committed
  have reach : Reach replayHost sampleGenesis run.2 :=
    Reach.run (.boot (sampleGenesis.boot_eq replayHost)) ran
  obtain ⟨_, consecutive, _, distinct⟩ := replay_protection reach
  have nonces := consecutive sampleSender
  have start : nonceOf sampleGenesis.accounts sampleSender = 0 := by decide +kernel
  have chain : sampleGenesis.chainId = 1 := rfl
  have count : (sentBy replayHost 1 sampleSender [sampleTransfer, replayTransfer]).length = 2 := by decide +kernel
  rw [chain, start, both, count] at nonces
  exact ⟨run.2, reach, both, distinct, nonces⟩

end Reached

end MiniEthNode
