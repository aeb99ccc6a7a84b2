import Mathlib.Logic.Relation
import MiniEthNode.Processor.Atomicity
import MiniEthNode.Processor.Payments

namespace MiniEthNode
open Rust Relation

/-- A stale block is counted, as received and as rejected. -/
def BlockProcessor.refused (processor : BlockProcessor) : BlockProcessor :=
  { processor with
    metrics :=
      { processor.metrics with
        blocksReceived := processor.metrics.blocksReceived + 1
        blocksRejectedValidation := processor.metrics.blocksRejectedValidation + 1 } }

/-- Any other block goes into the queue, where it may take the place of another one. -/
def BlockProcessor.queued (processor : BlockProcessor) (message : PendingBlock) : BlockProcessor :=
  { processor with
    pendingMap := processor.pendingMap.insert message.block.header.number message
    metrics := { processor.metrics with blocksReceived := processor.metrics.blocksReceived + 1 } }

/-- One block of the queue is taken up. -/
inductive Works (host : Host) (processor : BlockProcessor) : BlockProcessor → Prop
  | committed {number entry output ledger} : processor.pendingMap.lookup number = some entry →
      judge (processor.rules host) processor.ledger entry.block = .ok (output, ledger) →
      Works host processor
        { processor.withLedger ledger with
          pendingMap := processor.pendingMap.erase number
          metrics := processor.metrics.commit output }
  | rejected {number entry error} : processor.pendingMap.lookup number = some entry →
      judge (processor.rules host) processor.ledger entry.block = .err error →
      Works host processor
        { processor with
          pendingMap := processor.pendingMap.erase number
          metrics := processor.metrics.reject error }

section Steps
variable {host : Host} {processor after : BlockProcessor}

theorem attempt_works {number : U64} {entry : PendingBlock} {result : Except ProcessorError Unit}
    (closed : processor.ledger.Closed) (found : processor.pendingMap.lookup number = some entry)
    (ran : (Exec.attempt (BlockProcessor.processBlock host entry.block) : Exec BlockProcessor ProcessorError _)
      { processor with pendingMap := processor.pendingMap.erase number } = .ok (result, after)) :
    Works host processor after ∧ after.ledger.Closed := by
  have unqueued : Ledger.Closed (BlockProcessor.ledger
    { processor with pendingMap := processor.pendingMap.erase number }) := closed
  unfold Exec.attempt at ran
  split at ran <;> cases ran
  · rename_i ran
    obtain ⟨output, ledger, judged, rfl⟩ := BlockProcessor.processBlock_ok unqueued ran
    exact ⟨.committed found judged, judge_closed closed judged⟩
  · rename_i failed
    obtain ⟨judged, rfl⟩ := BlockProcessor.processBlock_err unqueued failed
    exact ⟨.rejected found judged, closed⟩

theorem drainLoop_works {fuel : Nat} {number : U64} {processed : List Block} (closed : processor.ledger.Closed)
    (ran : BlockProcessor.drainLoop host fuel number processor = .ok (processed, after)) :
    ReflTransGen (Works host) processor after := by
  induction fuel generalizing number processor processed with
  | zero =>
    cases ran
    exact .refl
  | succ fuel ih =>
    rw [BlockProcessor.drainLoop, Exec.get_bind] at ran
    cases found : processor.pendingMap.lookup number with
    | none =>
      rw [found] at ran
      cases ran
      exact .refl
    | some entry =>
      rw [found] at ran
      simp only [Exec.modify_bind] at ran
      obtain ⟨result, between, attempted, ran⟩ := Exec.bind_eq_ok.mp ran
      obtain ⟨following, _, lifted, ran⟩ := Exec.bind_eq_ok.mp ran
      obtain ⟨_, rfl⟩ := Exec.lift_eq_ok.mp lifted
      obtain ⟨rest, _, drained, ran⟩ := Exec.bind_eq_ok.mp ran
      cases ran
      obtain ⟨works, closed⟩ := attempt_works closed found attempted
      exact .head works (ih closed drained)

/-- All that one message does: the block is refused, or it goes into the queue and some blocks of the queue are taken
up. -/
theorem deliver_works {message : PendingBlock} {delivery : Delivery} (closed : processor.ledger.Closed)
    (delivered : deliver host processor message = some (delivery, after)) :
    after = processor.refused ∨ ReflTransGen (Works host) (processor.queued message) after := by
  unfold deliver BlockProcessor.handleNewBlock at delivered
  rw [Exec.get_bind, lift_nextNumber_bind] at delivered
  cases next : nextNumber host.overflowChecks processor.chainHead.number with
  | none =>
    simp only [next] at delivered
    cases delivered
  | some expected =>
    simp only [next, BlockProcessor.countMetrics, Exec.modify_bind] at delivered
    by_cases stale : message.block.header.number ≤ processor.chainHead.number
    · simp only [if_pos stale] at delivered
      cases delivered
      exact .inl rfl
    · simp only [if_neg stale, Exec.modify_bind, BlockProcessor.tryDrain, Exec.get_bind, lift_nextNumber_bind, next]
        at delivered
      have queued : (processor.queued message).ledger.Closed := closed
      split at delivered
      · rename_i drained
        cases delivered
        exact .inr (drainLoop_works queued drained)
      · rename_i error last drained
        have simulates := drainLoop_simulates host (processor.queued message).pendingMap.keys.card expected queued
        have drained : BlockProcessor.drainLoop host (processor.queued message).pendingMap.keys.card expected
          (processor.queued message) = .err (error, last) := drained
        rw [drained] at simulates
        exact simulates.elim
      · cases delivered

end Steps

section Counters

/-- The blocks that the counters of outcomes speak of. -/
def Metrics.handled (metrics : Metrics) : Nat :=
  metrics.blocksCommitted.toNat + metrics.blocksRejectedValidation.toNat + metrics.blocksRejectedExecution.toNat

theorem toNat_add_one {counter : U64} (room : counter.toNat + 1 < 2 ^ 64) :
    (counter + 1).toNat = counter.toNat + 1 := by
  rw [BitVec.toNat_add]
  exact Nat.mod_eq_of_lt room

variable {metrics after : Metrics}

/-- One of the three counters is raised, and there is room for it. -/
theorem Metrics.handled_raised (room : metrics.handled + 1 < 2 ^ 64)
    (raised : after.outcomes = (metrics.blocksCommitted + 1, metrics.blocksRejectedValidation,
        metrics.blocksRejectedExecution) ∨
      after.outcomes = (metrics.blocksCommitted, metrics.blocksRejectedValidation + 1,
        metrics.blocksRejectedExecution) ∨
      after.outcomes = (metrics.blocksCommitted, metrics.blocksRejectedValidation,
        metrics.blocksRejectedExecution + 1)) : after.handled = metrics.handled + 1 := by
  unfold handled at room ⊢
  simp only [outcomes, Prod.mk.injEq] at raised
  rcases raised with ⟨committed, validation, execution⟩ | ⟨committed, validation, execution⟩ |
    ⟨committed, validation, execution⟩
  · rw [committed, validation, execution, toNat_add_one (by omega)]
    omega
  · rw [committed, validation, execution, toNat_add_one (by omega)]
    omega
  · rw [committed, validation, execution, toNat_add_one (by omega)]
    omega

theorem Metrics.reject_others (metrics : Metrics) (error : ProcessorError) :
    (metrics.reject error).blocksReceived = metrics.blocksReceived ∧
      (metrics.reject error).blocksCommitted = metrics.blocksCommitted ∧
      (metrics.reject error).transactionsCommitted = metrics.transactionsCommitted := by
  cases error <;> exact ⟨rfl, rfl, rfl⟩

/-- A rejection is counted, unless it is about a sender. -/
theorem judge_err_handled {rules : Rules} {ledger : Ledger} {block : Block} {error : ProcessorError}
    (rejected : judge rules ledger block = .err error) (room : metrics.handled + 1 < 2 ^ 64) :
    (metrics.reject error).handled = metrics.handled + 1 ∨
      (metrics.reject error).handled = metrics.handled ∧
        BlockProcessor.recoverSenders rules.host rules.chainId block.transactions = .err error := by
  have counted (kind : (∃ number, error = .parentNotFound number) ∨
      (∃ actual expected, error = .invalidBlockNumber actual expected) ∨ (∃ reason, error = .validationFailed reason) ∨
      ∃ cause, error = .execution cause) : (metrics.reject error).handled = metrics.handled + 1 :=
    Metrics.handled_raised room (.inr (Metrics.reject_counted kind))
  rcases judge_err rejected with refused | ⟨_, unrecovered⟩ | executed
  · rcases admission_err refused with parent | number | reason
    · exact .inl (counted (.inl parent))
    · exact .inl (counted (.inr (.inl number)))
    · exact .inl (counted (.inr (.inr (.inl reason))))
  · obtain ⟨cause, rfl⟩ := BlockProcessor.recoverSenders_err unrecovered
    exact .inr ⟨rfl, unrecovered⟩
  · exact .inl (counted (.inr (.inr (.inr executed))))

end Counters

/-- The counters of a state after these messages. -/
structure Tally (host : Host) (genesis : Genesis) (messages : List PendingBlock) (processor : BlockProcessor) : Prop where
  closed : processor.ledger.Closed
  rules : processor.rules host = genesis.rules host
  received : processor.metrics.blocksReceived.toNat = messages.length
  chain : ∃ blocks, processor.ledger.Holds host (genesis.block :: blocks) ∧
    processor.metrics.blocksCommitted.toNat = blocks.length ∧
    processor.metrics.transactionsCommitted = BitVec.ofNat 64 (transactionsOf blocks).length
  waiting : ∀ number entry, processor.pendingMap.lookup number = some entry →
    entry ∈ messages ∧ entry.block.header.number = number
  handled : processor.metrics.handled + processor.pendingMap.keys.card ≤ messages.length
  /-- No block takes the place of another one, and no block is dropped for a sender. -/
  complete : (messages.map fun message => message.block.header.number).Nodup →
    (∀ message ∈ messages, ∃ senders,
      BlockProcessor.recoverSenders host genesis.chainId message.block.transactions = .ok senders) →
    processor.metrics.handled + processor.pendingMap.keys.card = messages.length

namespace Tally
variable {host : Host} {genesis : Genesis} {messages : List PendingBlock} {processor after : BlockProcessor}
  {message : PendingBlock}

theorem boot (host : Host) (genesis : Genesis) : Tally host genesis [] (genesis.processor host) :=
  ⟨rfl, rfl, rfl, ⟨[], genesis.holds host, rfl, rfl⟩, fun _ _ found => (by cases found), Nat.le_refl _, fun _ _ => rfl⟩

theorem works (tally : Tally host genesis messages processor) (short : messages.length < 2 ^ 64)
    (works : Works host processor after) : Tally host genesis messages after := by
  have handled := tally.handled
  have waiting {number : U64} (other : U64) (entry : PendingBlock)
      (found : (processor.pendingMap.erase number).lookup other = some entry) :
      entry ∈ messages ∧ entry.block.header.number = other := by
    rw [HashMap.lookup_erase_ite] at found
    split at found
    · cases found
    · exact tally.waiting other entry found
  cases works with
  | @committed number entry output ledger found judged =>
    have fewer := HashMap.keys_card_erase found
    have raised : (processor.metrics.commit output).handled = processor.metrics.handled + 1 :=
      Metrics.handled_raised (by omega) (.inl rfl)
    refine ⟨judge_closed tally.closed judged, tally.rules, tally.received, ?_, waiting, ?_, fun distinct signed => ?_⟩
    · obtain ⟨blocks, holds, committed, transactions⟩ := tally.chain
      obtain ⟨_, _, _, _, commit, _⟩ := judge_ok judged
      have holds : processor.ledger.Holds (processor.rules host).host (genesis.block :: blocks) := holds
      refine ⟨blocks ++ [entry.block], holds.commit judged, ?_, ?_⟩
      · rw [List.length_append, ← committed]
        exact toNat_add_one (by unfold Metrics.handled at handled; omega)
      · have counted : (transactionsOf (blocks ++ [entry.block])).length =
            (transactionsOf blocks).length + output.receipts.length := by
          simp [transactionsOf, commit.receipts]
        rw [counted, BitVec.ofNat_add, ← transactions]
        rfl
    · dsimp only
      omega
    · have complete := tally.complete distinct signed
      dsimp only
      omega
  | @rejected number entry error found judged =>
    have fewer := HashMap.keys_card_erase found
    have room : processor.metrics.handled + 1 < 2 ^ 64 := by omega
    have counted := judge_err_handled judged room
    obtain ⟨sameReceived, sameCommitted, sameTransactions⟩ := processor.metrics.reject_others error
    refine ⟨tally.closed, tally.rules, sameReceived ▸ tally.received, ?_, waiting, ?_, fun distinct signed => ?_⟩
    · obtain ⟨blocks, holds, committed, transactions⟩ := tally.chain
      exact ⟨blocks, holds, sameCommitted ▸ committed, sameTransactions ▸ transactions⟩
    · dsimp only
      omega
    · have complete := tally.complete distinct signed
      dsimp only
      rcases counted with counted | ⟨_, unrecovered⟩
      · omega
      · obtain ⟨senders, recovered⟩ := signed entry (tally.waiting number entry found).1
        rw [tally.rules] at unrecovered
        cases recovered.symm.trans unrecovered

/-- A block goes into the queue. -/
theorem queued (tally : Tally host genesis messages processor) (short : messages.length + 1 < 2 ^ 64)
    (message : PendingBlock) : Tally host genesis (messages ++ [message]) (processor.queued message) := by
  have length : (messages ++ [message]).length = messages.length + 1 := List.length_append
  have handled := tally.handled
  refine ⟨tally.closed, tally.rules, ?_, tally.chain, fun number entry found => ?_, ?_, fun distinct signed => ?_⟩
  · have received := tally.received
    rw [length, ← received]
    exact toNat_add_one (by omega)
  · rw [BlockProcessor.queued, HashMap.lookup_insert_ite] at found
    split at found
    · rename_i same
      cases found
      exact ⟨List.mem_concat_self, same.symm⟩
    · obtain ⟨member, same⟩ := tally.waiting number entry found
      exact ⟨List.mem_append_left _ member, same⟩
  · have more := processor.pendingMap.keys_card_insert_le message.block.header.number message
    change processor.metrics.handled + (processor.pendingMap.insert _ _).keys.card ≤ _
    omega
  · rw [List.map_append, List.map_singleton] at distinct
    have complete := tally.complete (List.Nodup.of_append_left distinct)
      fun other member => signed other (List.mem_append_left _ member)
    have fresh : processor.pendingMap.lookup message.block.header.number = none := by
      refine Option.eq_none_iff_forall_ne_some.mpr fun entry found => ?_
      obtain ⟨member, same⟩ := tally.waiting _ entry found
      exact (List.nodup_append.mp distinct).2.2 _ (List.mem_map_of_mem member) _ List.mem_cons_self same
    have more := HashMap.keys_card_insert fresh message
    change processor.metrics.handled + (processor.pendingMap.insert _ _).keys.card = _
    omega

theorem refused (tally : Tally host genesis messages processor) (short : messages.length + 1 < 2 ^ 64)
    (message : PendingBlock) : Tally host genesis (messages ++ [message]) processor.refused := by
  have length : (messages ++ [message]).length = messages.length + 1 := List.length_append
  have handled := tally.handled
  have raised : processor.refused.metrics.handled = processor.metrics.handled + 1 :=
    Metrics.handled_raised (by omega) (.inr (.inl rfl))
  have same : processor.refused.pendingMap = processor.pendingMap := rfl
  refine ⟨tally.closed, tally.rules, ?_, tally.chain, fun number entry found => ?_, ?_, fun distinct signed => ?_⟩
  · have received := tally.received
    rw [length, ← received]
    exact toNat_add_one (by omega)
  · obtain ⟨member, same⟩ := tally.waiting number entry found
    exact ⟨List.mem_append_left _ member, same⟩
  · rw [raised, same]
    omega
  · rw [List.map_append] at distinct
    have complete := tally.complete (List.Nodup.of_append_left distinct)
      fun other member => signed other (List.mem_append_left _ member)
    rw [raised, same]
    omega

theorem deliver {delivery : Delivery} (tally : Tally host genesis messages processor)
    (short : messages.length + 1 < 2 ^ 64) (delivered : MiniEthNode.deliver host processor message = some (delivery, after)) :
    Tally host genesis (messages ++ [message]) after := by
  rcases deliver_works tally.closed delivered with rfl | works
  · exact tally.refused short message
  · clear delivered
    induction works with
    | refl => exact tally.queued short message
    | tail _ step ih => exact ih.works (by rw [List.length_append]; exact short) step

theorem run {rest : List PendingBlock} {deliveries : List Delivery} (tally : Tally host genesis messages processor)
    (short : messages.length + rest.length < 2 ^ 64)
    (ran : deliverAll host processor rest = some (deliveries, after)) : Tally host genesis (messages ++ rest) after := by
  induction rest generalizing messages processor deliveries with
  | nil =>
    cases ran
    rw [List.append_nil]
    exact tally
  | cons message rest ih =>
    obtain ⟨⟨delivery, between⟩, delivered, ran⟩ := Option.bind_eq_some_iff.mp ran
    obtain ⟨⟨later, last⟩, ran, same⟩ := Option.bind_eq_some_iff.mp ran
    cases same
    rw [List.length_cons] at short
    have next := tally.deliver (by omega) delivered
    rw [List.append_cons]
    exact ih next (by rw [List.length_append, List.length_singleton]; omega) ran

end Tally

/-- What the node reports at its end. The counters give the number of blocks that were received, the height of the
chain and the number of its transactions; a block that was received is committed, rejected or waiting at most once, and
exactly once unless it took the place of another block of its number or was dropped for a sender. -/
theorem metrics_reconcile {host : Host} {genesis : Genesis} {messages : List PendingBlock}
    {deliveries : List Delivery} {processor : BlockProcessor} (short : messages.length < 2 ^ 64)
    (ran : deliverAll host (genesis.processor host) messages = some (deliveries, processor)) :
    processor.metrics.blocksReceived.toNat = messages.length ∧
    processor.metrics.blocksCommitted = processor.chainHead.number ∧
    processor.metrics.blocksCommitted.toNat = processor.committedBlocks.length ∧
    processor.metrics.transactionsCommitted = BitVec.ofNat 64 (transactionsOf processor.committedBlocks).length ∧
    processor.metrics.handled + processor.pendingMap.keys.card ≤ messages.length ∧
    ((messages.map fun message => message.block.header.number).Nodup →
      (∀ message ∈ messages, ∃ senders,
        BlockProcessor.recoverSenders host genesis.chainId message.block.transactions = .ok senders) →
      processor.metrics.handled + processor.pendingMap.keys.card = messages.length) := by
  have tally := (Tally.boot host genesis).run (by rw [List.length_nil, Nat.zero_add]; exact short) ran
  rw [List.nil_append] at tally
  obtain ⟨blocks, holds, committed, transactions⟩ := tally.chain
  have height : (genesis.block :: blocks).length = processor.chainHead.number.toNat + 1 := holds.height
  rw [List.length_cons] at height
  rw [holds.committedBlocks]
  exact ⟨tally.received, BitVec.eq_of_toNat_eq (by omega), committed, transactions, tally.handled, tally.complete⟩

/-- The second block comes first and waits for the other one. -/
theorem metrics_reconcile_two_blocks : ∃ deliveries processor,
    deliverAll sampleHost (sampleGenesis.processor sampleHost) [sampleSecond, sampleFirst] =
      some (deliveries, processor) ∧
    processor.metrics.handled + processor.pendingMap.keys.card = 2 := by
  have possible : (deliverAll sampleHost (sampleGenesis.processor sampleHost)
      [sampleSecond, sampleFirst]).isSome = true := by decide +kernel
  obtain ⟨⟨deliveries, processor⟩, ran⟩ := Option.isSome_iff_exists.mp possible
  obtain ⟨_, _, _, _, _, complete⟩ := metrics_reconcile (by decide) ran
  refine ⟨deliveries, processor, ran, complete (by decide) fun message member => ?_⟩
  have recovers : ∀ message ∈ [sampleSecond, sampleFirst], (BlockProcessor.recoverSenders sampleHost
      sampleGenesis.chainId message.block.transactions).toOption.isSome = true := by decide +kernel
  obtain ⟨senders, recovered⟩ := Option.isSome_iff_exists.mp (recovers message member)
  exact ⟨senders, Outcome.toOption_eq_some.mp recovered⟩

end MiniEthNode
