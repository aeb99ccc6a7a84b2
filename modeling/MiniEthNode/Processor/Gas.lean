import Mathlib.Data.BitVec
import MiniEthNode.Processor.Replay

namespace MiniEthNode
open Rust

/-- The gas limits of the transactions of a block together. -/
def gasLimitTotal (block : Block) : Nat :=
  (block.transactions.map fun signedTx => signedTx.transaction.gasLimit.toNat).sum

/-- Commits one after the other, each with what its execution has returned. -/
inductive Executed (rules : Rules) : Ledger → List (Block × ExecutionOutput) → Ledger → Prop
  | nil {ledger} : Executed rules ledger [] ledger
  | cons {before between after block output rest} : judge rules before block = .ok (output, between) →
      Executed rules between rest after → Executed rules before ((block, output) :: rest) after

/-- The gas that execution has charged, in the arithmetic of the counter. -/
def charged (entries : List (Block × ExecutionOutput)) : U64 := (entries.map fun entry => entry.2.gasUsed).sum

theorem Executed.committed {rules : Rules} {before after : Ledger} {entries : List (Block × ExecutionOutput)}
    (executed : Executed rules before entries after) : Committed rules before (entries.map Prod.fst) after := by
  induction executed with
  | nil => exact .nil
  | cons step _ ih => exact .cons step ih

theorem Executed.trans {rules : Rules} {before between after : Ledger} {first second : List (Block × ExecutionOutput)}
    (earlier : Executed rules before first between) (later : Executed rules between second after) :
    Executed rules before (first ++ second) after := by
  induction earlier with
  | nil => exact later
  | cons step _ ih => exact .cons step (ih later)

section Execution

/-- What execution charges for a block is the sum of its gas limits, which fits in the counter. -/
theorem Commit.gas {rules : Rules} {ledger : Ledger} {block parent : Block} {senders : List Address}
    {output : ExecutionOutput} {state : HashMap Address Account} {totalDifficulty : U128}
    (commit : Commit rules ledger block parent senders output state totalDifficulty) :
    output.gasUsed.toNat = gasLimitTotal block := by
  obtain ⟨after, ran, _⟩ := executeBlock_of_executeOn commit.executed
  obtain ⟨blockHash, _, _, ran⟩ := Exec.bind_eq_ok.mp ran
  obtain ⟨progress, q, executed, ran⟩ := Exec.bind_eq_ok.mp ran
  obtain ⟨stateRoot, _, _, ran⟩ := Exec.bind_eq_ok.mp ran
  cases ran
  have gas := executeTransactions_gas executed
  have all : ((block.transactions.zip senders).map fun entry => entry.1.transaction.gasLimit.toNat).sum =
      gasLimitTotal block := by
    rw [gasLimitTotal, ← commit.paired, List.map_map, commit.paired]
    rfl
  rw [all] at gas
  exact gas.trans (Nat.zero_add _)

theorem Executed.gas {rules : Rules} {before after : Ledger} {entries : List (Block × ExecutionOutput)}
    (executed : Executed rules before entries after) :
    ∀ entry ∈ entries, entry.2.gasUsed.toNat = gasLimitTotal entry.1 ∧
      entry.1.header.gasUsed ≤ entry.1.header.gasLimit := by
  induction executed with
  | nil => simp
  | cons step _ ih =>
    obtain ⟨parent, senders, state, totalDifficulty, commit, _⟩ := judge_ok step
    intro entry member
    rcases List.mem_cons.mp member with rfl | later
    · exact ⟨commit.gas, commit.gasWithin⟩
    · exact ih entry later

end Execution

section Counter
variable {host : Host}

/-- What happened to the ledger and to the counter of gas between two states. -/
def Charges (host : Host) (processor after : BlockProcessor) : Prop :=
  ∃ entries, Executed (processor.rules host) processor.ledger entries after.ledger ∧
    after.metrics.totalGasCommitted = processor.metrics.totalGasCommitted + charged entries ∧
    after.rules host = processor.rules host

theorem Charges.trans {processor between after : BlockProcessor} (earlier : Charges host processor between)
    (later : Charges host between after) : Charges host processor after := by
  obtain ⟨first, executed, counted, kept⟩ := earlier
  obtain ⟨second, executed', counted', kept'⟩ := later
  refine ⟨first ++ second, executed.trans (kept ▸ executed'), ?_, kept'.trans kept⟩
  rw [counted', counted, charged, charged, charged, List.map_append, List.sum_append, BitVec.add_assoc]

/-- Nothing is charged where neither the ledger nor the counter changes. -/
theorem Charges.same {processor after : BlockProcessor} (ledger : after.ledger = processor.ledger)
    (counter : after.metrics.totalGasCommitted = processor.metrics.totalGasCommitted)
    (rules : after.rules host = processor.rules host) : Charges host processor after :=
  ⟨[], ledger ▸ .nil, counter.trans (BitVec.add_zero _).symm, rules⟩

theorem Metrics.reject_totalGasCommitted (metrics : Metrics) (error : ProcessorError) :
    (metrics.reject error).totalGasCommitted = metrics.totalGasCommitted := by
  cases error <;> rfl

theorem attempt_charges {block : Block} {processor after : BlockProcessor} {result : Except ProcessorError Unit}
    (closed : processor.ledger.Closed)
    (ran : (Exec.attempt (BlockProcessor.processBlock host block) : Exec BlockProcessor ProcessorError _) processor =
      .ok (result, after)) : Charges host processor after ∧ after.ledger.Closed := by
  have equation := BlockProcessor.processBlock_eq host block closed
  cases judged : judge (processor.rules host) processor.ledger block with
  | ok outcome =>
    rw [judged] at equation
    simp only [Exec.attempt, equation] at ran
    cases ran
    refine ⟨⟨[(block, outcome.1)], .cons judged .nil, ?_, rfl⟩, judge_closed closed judged⟩
    rw [charged, List.map_singleton, List.sum_singleton]
    rfl
  | err error =>
    rw [judged] at equation
    simp only [Exec.attempt, equation] at ran
    cases ran
    exact ⟨.same rfl (Metrics.reject_totalGasCommitted _ error) rfl, closed⟩
  | panic =>
    rw [judged] at equation
    simp only [Exec.attempt, equation] at ran
    cases ran

theorem drainLoop_charges {fuel : Nat} {number : U64} {processor after : BlockProcessor} {processed : List Block}
    (closed : processor.ledger.Closed)
    (ran : BlockProcessor.drainLoop host fuel number processor = .ok (processed, after)) :
    Charges host processor after := by
  induction fuel generalizing number processor processed with
  | zero =>
    cases ran
    exact .same rfl rfl rfl
  | succ fuel ih =>
    rw [BlockProcessor.drainLoop, Exec.get_bind] at ran
    cases found : processor.pendingMap.lookup number with
    | none =>
      rw [found] at ran
      cases ran
      exact .same rfl rfl rfl
    | some entry =>
      rw [found] at ran
      simp only [Exec.modify_bind] at ran
      obtain ⟨result, between, attempted, ran⟩ := Exec.bind_eq_ok.mp ran
      obtain ⟨following, _, lifted, ran⟩ := Exec.bind_eq_ok.mp ran
      obtain ⟨_, rfl⟩ := Exec.lift_eq_ok.mp lifted
      obtain ⟨rest, _, drained, ran⟩ := Exec.bind_eq_ok.mp ran
      cases ran
      have unqueued : Ledger.Closed (BlockProcessor.ledger
        { processor with pendingMap := processor.pendingMap.erase number }) := closed
      obtain ⟨here, closed'⟩ := attempt_charges unqueued attempted
      exact Charges.trans (.same rfl rfl rfl) (here.trans (ih closed' drained))

theorem deliver_charges {processor after : BlockProcessor} {message : PendingBlock} {delivery : Delivery}
    (closed : processor.ledger.Closed) (delivered : deliver host processor message = some (delivery, after)) :
    Charges host processor after := by
  unfold deliver BlockProcessor.handleNewBlock at delivered
  rw [Exec.get_bind, lift_nextNumber_bind] at delivered
  cases next : nextNumber host.overflowChecks processor.chainHead.number with
  | none =>
    simp only [next] at delivered
    cases delivered
  | some expected =>
    simp only [next, BlockProcessor.countMetrics, Exec.modify_bind] at delivered
    by_cases stale : message.block.header.number ≤ processor.chainHead.number
    · simp only [if_pos stale] at delivered
      cases delivered
      exact .same rfl rfl rfl
    · simp only [if_neg stale, Exec.modify_bind, BlockProcessor.tryDrain, Exec.get_bind, lift_nextNumber_bind, next]
        at delivered
      have queued : Ledger.Closed (BlockProcessor.ledger
        { processor with
          pendingMap := processor.pendingMap.insert message.block.header.number message
          metrics := { processor.metrics with blocksReceived := processor.metrics.blocksReceived + 1 } }) := closed
      split at delivered
      · rename_i processed last drained
        cases delivered
        have drains := drainLoop_charges queued drained
        exact Charges.trans (.same rfl rfl rfl) drains
      · rename_i error last drained
        have simulates := drainLoop_simulates host
          (processor.pendingMap.insert message.block.header.number message).keys.card expected queued
        rw [drained] at simulates
        exact simulates.elim
      · cases delivered

/-- The committed blocks of a state with what their executions have returned, and the counter. -/
theorem Reach.executed {genesis : Genesis} {processor : BlockProcessor} (reach : Reach host genesis processor) :
    ∃ entries, Executed (genesis.rules host) (genesis.ledger host) entries processor.ledger ∧
      entries.map Prod.fst = processor.committedBlocks ∧
      processor.metrics.totalGasCommitted = charged entries := by
  have run : ∃ entries, Executed (genesis.rules host) (genesis.ledger host) entries processor.ledger ∧
      processor.metrics.totalGasCommitted = charged entries := by
    induction reach with
    | boot booted =>
      rw [genesis.boot_eq] at booted
      cases booted
      exact ⟨[], .nil, rfl⟩
    | next reach delivered ih =>
      obtain ⟨first, executed, counted⟩ := ih
      obtain ⟨second, executed', counted', _⟩ := deliver_charges reach.settled.1 delivered
      rw [reach.settled.2] at executed'
      refine ⟨first ++ second, executed.trans executed', ?_⟩
      rw [counted', counted, charged, charged, charged, List.map_append, List.sum_append]
  obtain ⟨entries, executed, counted⟩ := run
  have holds := Ledger.Holds.committed executed.committed (genesis.holds host)
  exact ⟨entries, executed, (Ledger.Holds.committedBlocks holds).symm, counted⟩

end Counter

section Declared
variable {host : Host} {genesis : Genesis} {processor : BlockProcessor}

/-- The headers of the committed blocks declare what execution charges. -/
def GasDeclared (processor : BlockProcessor) : Prop :=
  ∀ block ∈ processor.committedBlocks, block.header.gasUsed.toNat = gasLimitTotal block

theorem charged_toNat {entries : List (Block × ExecutionOutput)}
    (same : ∀ entry ∈ entries, entry.2.gasUsed = entry.1.header.gasUsed) :
    (charged entries).toNat = gasTotal (entries.map Prod.fst) % 2 ^ 64 := by
  induction entries with
  | nil => rfl
  | cons entry rest ih =>
    have here := same entry List.mem_cons_self
    have later := ih fun entry member => same entry (List.mem_cons_of_mem _ member)
    unfold charged gasTotal at later ⊢
    simp only [List.map_cons, List.sum_cons, BitVec.toNat_add, later, here]
    omega

/-- Execution charges the gas limits of a block. That is the gas of its header exactly where the headers are honest;
then it is within the limit of every committed block, and the difficulty has grown by the counter of gas until the
counter wraps around. -/
theorem gas_of_declared (reach : Reach host genesis processor) :
    ∃ entries, Executed (genesis.rules host) (genesis.ledger host) entries processor.ledger ∧
      entries.map Prod.fst = processor.committedBlocks ∧
      (∀ entry ∈ entries, entry.2.gasUsed.toNat = gasLimitTotal entry.1) ∧
      ((∀ entry ∈ entries, entry.2.gasUsed = entry.1.header.gasUsed) ↔ GasDeclared processor) ∧
      (GasDeclared processor →
        (∀ entry ∈ entries, entry.2.gasUsed ≤ entry.1.header.gasLimit) ∧
        (gasTotal processor.committedBlocks < 2 ^ 64 →
          processor.chainHead.totalDifficulty =
            genesis.totalDifficulty + processor.metrics.totalGasCommitted.setWidth 128)) := by
  obtain ⟨entries, executed, blocks, counted⟩ := reach.executed
  have honest (declared : GasDeclared processor) : ∀ entry ∈ entries, entry.2.gasUsed = entry.1.header.gasUsed := by
    intro entry member
    have inside : entry.1 ∈ processor.committedBlocks := blocks ▸ List.mem_map_of_mem member
    exact BitVec.eq_of_toNat_eq ((executed.gas entry member).1.trans (declared entry.1 inside).symm)
  refine ⟨entries, executed, blocks, fun entry member => (executed.gas entry member).1, ⟨fun same block member => ?_,
    honest⟩, fun declared => ⟨fun entry member => ?_, fun small => ?_⟩⟩
  · rw [← blocks] at member
    obtain ⟨entry, inside, rfl⟩ := List.mem_map.mp member
    rw [← same entry inside]
    exact (executed.gas entry inside).1
  · rw [honest declared entry member]
    exact (executed.gas entry member).2
  · have sum : processor.chainHead.totalDifficulty.toNat =
        (genesis.totalDifficulty.toNat + gasTotal (entries.map Prod.fst)) % 2 ^ 128 := executed.committed.difficulty.1
    have counter := charged_toNat (honest declared)
    rw [blocks] at sum counter
    rw [Nat.mod_eq_of_lt small] at counter
    apply BitVec.eq_of_toNat_eq
    rw [sum, BitVec.toNat_add, BitVec.toNat_setWidth_of_le (by decide), counted, counter]

theorem gas_of_declared_two_blocks : ∃ processor, Reach sampleHost sampleGenesis processor ∧
    processor.committedBlocks = [sampleFirst.block, sampleSecond.block] ∧
      processor.chainHead.totalDifficulty = processor.metrics.totalGasCommitted.setWidth 128 := by
  obtain ⟨processor, reach, both⟩ := sample_reach_both
  have declared : GasDeclared processor := by
    rw [GasDeclared, both]
    decide
  obtain ⟨_, _, _, _, _, honest⟩ := gas_of_declared reach
  have growth := (honest declared).2 (by rw [both]; decide)
  exact ⟨processor, reach, both, growth.trans (BitVec.zero_add _)⟩

/-- The digests and the recovered key that the block below asks for. -/
def excessHost : Host := sampleHost.extend [
  (toBeBytes 40 0xf87ca0ac323fb52305d0e53e6ecd545dc3d05abf57d846260129534c1966d2deeef6199400000000 ++
      toBeBytes 40 0x00000000000000000000000000000000a00000000000000000000000000000000000000000000000 ++
      toBeBytes 40 0x000000000000000000a0000000000000000000000000000000000000000000000000000000000000 ++
      toBeBytes 6 0x000064800101,
    .ofNat 0xa8bd5b0b37ba0520de8558adcc60344bed8c3e96db994f456b10be4088fda2a7),
  (toBeBytes 30 0xdd8001659422222222222222222222222222222222222222220780018080,
    .ofNat 0x0585791bba4799b8c24226ccc2f8b58280fae218b9cb6615423ab4dfe756b962),
  (toBeBytes 40 0xf85d800165942222222222222222222222222222222222222222078025a00f8a7b06d1f704140a68 ++
      toBeBytes 40 0xd10e3a597ec353e8bb0e0c4943c069b520b516b99aa9a079deae39f632e6e8580f3474e48855e643 ++
      toBeBytes 15 0xf03a3e516fc418d5380e99d1a2e885,
    .ofNat 0xfa8658951ef3e55652425bf07a7be8add63175c2f436dfaccb0d0239926ddc0f),
  (toBeBytes 40 0xf85f943917b4d08a3a9e2b975ff44088133b9b64230de8b848f84601820764a00000000000000000 ++
      toBeBytes 40 0x000000000000000000000000000000000000000000000000a0c5d2460186f7233c927e7db2dcc703 ++
      toBeBytes 17 0xc0e500b653ca82273b7bfad8045d85a470,
    .ofNat 0xdb0fd1cf54e8da9a01381b0990ec24048f9a058b35fceb390fb14db44f7f2a1a),
  (toBeBytes 40 0xf8518080a0e9e5eeae046804f9a40fd10a817cf841569e77aa60c4eebb2f8553003f79cbf080a0db ++
      toBeBytes 40 0x0fd1cf54e8da9a01381b0990ec24048f9a058b35fceb390fb14db44f7f2a1a808080808080808080 ++
      toBeBytes 3 0x808080,
    .ofNat 0xd57fa5efa319c4684508c6b35bc1112868a8fb4ce3765a222a7bff711a056979)]
  [((.ofNat 0x0585791bba4799b8c24226ccc2f8b58280fae218b9cb6615423ab4dfe756b962,
      toBeBytes 32 0x0f8a7b06d1f704140a68d10e3a597ec353e8bb0e0c4943c069b520b516b99aa9 ++
        toBeBytes 32 0x79deae39f632e6e8580f3474e48855e643f03a3e516fc418d5380e99d1a2e885, 0),
    samplePublicKey)]

/-- A block that declares no gas, with a transfer whose gas limit is above that of the block. -/
def excessBlock : Block :=
  sampleBlock 0xac323fb52305d0e53e6ecd545dc3d05abf57d846260129534c1966d2deeef619 0 1
    [{ transaction := .legacy 0 1 101 (some (.ofNat 0x2222222222222222222222222222222222222222)) 7 []
       v := 37
       r := .ofNat 0x0f8a7b06d1f704140a68d10e3a597ec353e8bb0e0c4943c069b520b516b99aa9
       s := .ofNat 0x79deae39f632e6e8580f3474e48855e643f03a3e516fc418d5380e99d1a2e885 }]

/-- The block is committed: execution charges more gas than its limit, and the difficulty stays. -/
theorem gas_above_limit : excessBlock.header.gasUsed = 0 ∧ excessBlock.header.gasLimit = 100 ∧
    ∃ processor, Reach excessHost sampleGenesis processor ∧ processor.committedBlocks = [excessBlock] ∧
      processor.metrics.totalGasCommitted = 101 ∧ processor.chainHead.totalDifficulty = 0 := by
  have committed : ((deliver excessHost (sampleGenesis.processor excessHost) ⟨excessBlock, ⟨0⟩⟩).map fun step =>
      (step.2.committedBlocks, step.2.metrics.totalGasCommitted, step.2.chainHead.totalDifficulty)) =
        some ([excessBlock], 101, 0) := by decide +kernel
  obtain ⟨⟨delivery, after⟩, delivered, same⟩ := Option.map_eq_some_iff.mp committed
  obtain ⟨blocks, same⟩ := Prod.mk.inj same
  obtain ⟨counter, difficulty⟩ := Prod.mk.inj same
  have reach : Reach excessHost sampleGenesis (sampleGenesis.processor excessHost) :=
    .boot (sampleGenesis.boot_eq excessHost)
  exact ⟨rfl, rfl, after, reach.next delivered, blocks, counter, difficulty⟩

end Declared

end MiniEthNode
