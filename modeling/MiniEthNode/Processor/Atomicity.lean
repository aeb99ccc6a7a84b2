import MiniEthNode.Processor.Chain

namespace MiniEthNode
open Rust

section Call
variable {host : Host} {block : Block} {processor : BlockProcessor}

theorem BlockProcessor.commitBlock_ne_err (output : ExecutionOutput) (error : ProcessorError) (after : BlockProcessor) :
    commitBlock host block output processor ≠ .err (error, after) := by
  rw [commitBlock_eq]
  split
  · simp
  · rename_i sum
    exact absurd sum add_ne_err
  · simp

/-- A call that fails has raised at most a counter, and only for the error that it returns. -/
theorem BlockProcessor.processBlock_err {error : ProcessorError} {after : BlockProcessor}
    (closed : processor.ledger.Closed)
    (failed : processBlock host block processor = .err (error, after)) :
    judge (processor.rules host) processor.ledger block = .err error ∧
      after = { processor with metrics := processor.metrics.reject error } := by
  rw [processBlock_eq host block closed] at failed
  split at failed <;> cases failed
  rename_i judged
  exact ⟨judged, rfl⟩

theorem BlockProcessor.processBlock_ok {after : BlockProcessor} (closed : processor.ledger.Closed)
    (ran : processBlock host block processor = .ok ((), after)) :
    ∃ output ledger, judge (processor.rules host) processor.ledger block = .ok (output, ledger) ∧
      after = { processor.withLedger ledger with metrics := processor.metrics.commit output } := by
  rw [processBlock_eq host block closed] at ran
  split at ran <;> cases ran
  rename_i output ledger judged
  exact ⟨output, ledger, judged, rfl⟩

/-- The checks before execution have errors of their own, none of them about signatures. -/
theorem admission_err {ledger : Ledger} {error : ProcessorError} (refused : admission host ledger block = .err error) :
    (∃ number, error = .parentNotFound number) ∨ (∃ actual expected, error = .invalidBlockNumber actual expected) ∨
      ∃ reason, error = .validationFailed reason := by
  unfold admission at refused
  split at refused
  · cases refused
  · cases refused
    exact .inl ⟨_, rfl⟩
  rcases Outcome.bind_eq_err.mp refused with sum | ⟨_, _, refused⟩
  · exact absurd sum add_ne_err
  split at refused
  · cases refused
    exact .inr (.inl ⟨_, _, rfl⟩)
  split at refused
  · cases refused
    exact .inr (.inr ⟨_, rfl⟩)
  rcases Outcome.bind_eq_err.mp refused with sum | ⟨_, _, refused⟩
  · exact absurd sum add_ne_err
  split at refused <;> cases refused
  exact .inr (.inl ⟨_, _, rfl⟩)

/-- Every rejection comes from the first checks, from a sender that is not recovered, or from the pipeline. -/
theorem judge_err {rules : Rules} {ledger : Ledger} {error : ProcessorError}
    (rejected : judge rules ledger block = .err error) :
    admission rules.host ledger block = .err error ∨
      (admission rules.host ledger block = .ok () ∧
        BlockProcessor.recoverSenders rules.host rules.chainId block.transactions = .err error) ∨
      ∃ cause, error = .execution cause := by
  rcases Outcome.bind_eq_err.mp rejected with refused | ⟨_, admitted, rejected⟩
  · exact .inl refused
  rcases Outcome.bind_eq_err.mp rejected with unrecovered | ⟨_, _, rejected⟩
  · exact .inr (.inl ⟨admitted, unrecovered⟩)
  rcases Outcome.bind_eq_err.mp rejected with failed | ⟨_, _, rejected⟩
  · obtain ⟨cause, _, same⟩ := Outcome.mapErr_eq_err.mp failed
    exact .inr (.inr ⟨cause, same.symm⟩)
  rcases Outcome.bind_eq_err.mp rejected with sum | ⟨_, _, rejected⟩
  · exact absurd sum add_ne_err
  · cases rejected

end Call

section Reached
variable {host : Host} {genesis : Genesis} {processor : BlockProcessor}

/-- A call that fails changes nothing but the counters, and nothing after the execution can fail. -/
theorem processBlock_all_or_nothing (reach : Reach host genesis processor) (block : Block) :
    (∀ error after, BlockProcessor.processBlock host block processor = .err (error, after) →
      after = { processor with metrics := after.metrics } ∧ processor.pipeline.provider.journal = none) ∧
    (∀ error, hashHeader host block.header ≠ .err error) ∧
    (∀ provider error after, InMemoryProvider.insertBlock host block provider ≠ .err (error, after)) ∧
    ∀ output between error after, BlockProcessor.commitBlock host block output between ≠ .err (error, after) := by
  refine ⟨fun error after failed => ?_, fun error => ?_, fun provider error after => ?_,
    fun output between error after => BlockProcessor.commitBlock_ne_err output error after⟩
  · obtain ⟨_, same⟩ := BlockProcessor.processBlock_err reach.settled.1 failed
    exact ⟨by rw [same], reach.settled.1⟩
  · rw [hashHeader_eq]
    simp
  · rw [InMemoryProvider.insertBlock_eq]
    simp

/-- The first transfer twice in one block: the second execution fails after the first has moved value. -/
def repeatedBlock : Block :=
  { sampleFirst.block with transactions := [sampleTransfer, sampleTransfer] }

theorem processBlock_all_or_nothing_repeated : ∃ after,
    BlockProcessor.processBlock sampleHost repeatedBlock (sampleGenesis.processor sampleHost) =
      .err (.execution (.invalidNonce sampleSender 1 0), after) ∧
    after = { sampleGenesis.processor sampleHost with metrics := after.metrics } := by
  have evaluated : ((BlockProcessor.processBlock sampleHost repeatedBlock
      (sampleGenesis.processor sampleHost)).toError.map Prod.fst) = some (.execution (.invalidNonce sampleSender 1 0)) := by
    decide +kernel
  obtain ⟨⟨error, after⟩, failed, same⟩ := Option.map_eq_some_iff.mp evaluated
  cases same
  rw [Outcome.toError_eq_some] at failed
  exact ⟨after, failed, ((processBlock_all_or_nothing sample_reach repeatedBlock).1 _ _ failed).1⟩

/-- The three counters that a call of `process_block` may raise. -/
def Metrics.outcomes (metrics : Metrics) : U64 × U64 × U64 :=
  (metrics.blocksCommitted, metrics.blocksRejectedValidation, metrics.blocksRejectedExecution)

/-- A call that returns has raised exactly one of the three counters, by one. -/
structure CountedOnce (host : Host) (processor : BlockProcessor) (block : Block) : Prop where
  committed : ∀ after, BlockProcessor.processBlock host block processor = .ok ((), after) →
    after.metrics.outcomes = (processor.metrics.blocksCommitted + 1, processor.metrics.blocksRejectedValidation,
      processor.metrics.blocksRejectedExecution)
  rejected : ∀ error after, BlockProcessor.processBlock host block processor = .err (error, after) →
    after.metrics.outcomes = (processor.metrics.blocksCommitted, processor.metrics.blocksRejectedValidation + 1,
      processor.metrics.blocksRejectedExecution) ∨
    after.metrics.outcomes = (processor.metrics.blocksCommitted, processor.metrics.blocksRejectedValidation,
      processor.metrics.blocksRejectedExecution + 1)

theorem Metrics.reject_counted {metrics : Metrics} {error : ProcessorError}
    (counted : (∃ number, error = .parentNotFound number) ∨
      (∃ actual expected, error = .invalidBlockNumber actual expected) ∨ (∃ reason, error = .validationFailed reason) ∨
      ∃ cause, error = .execution cause) :
    (metrics.reject error).outcomes =
        (metrics.blocksCommitted, metrics.blocksRejectedValidation + 1, metrics.blocksRejectedExecution) ∨
      (metrics.reject error).outcomes =
        (metrics.blocksCommitted, metrics.blocksRejectedValidation, metrics.blocksRejectedExecution + 1) := by
  rcases counted with ⟨_, rfl⟩ | ⟨_, _, rfl⟩ | ⟨_, rfl⟩ | ⟨_, rfl⟩
  · exact .inl rfl
  · exact .inl rfl
  · exact .inl rfl
  · exact .inr rfl

/-- The error of a sender that is not recovered is passed on past the counters. -/
theorem processBlock_unrecovered {block : Block} {error : ProcessorError} (closed : processor.ledger.Closed)
    (admitted : admission host processor.ledger block = .ok ())
    (failed : BlockProcessor.recoverSenders host processor.chainId block.transactions = .err error) :
    BlockProcessor.processBlock host block processor = .err (error, processor) := by
  have judged : judge (processor.rules host) processor.ledger block = .err error := by
    rw [judge, BlockProcessor.rules_host, BlockProcessor.rules_chainId, admitted, Outcome.ok_bind, failed]
    rfl
  obtain ⟨cause, rfl⟩ := BlockProcessor.recoverSenders_err failed
  rw [BlockProcessor.processBlock_eq host block closed, judged]
  rfl

/-- A block is counted once exactly when the checks refuse it or its senders can be recovered. -/
theorem processBlock_counted_once (reach : Reach host genesis processor) {block : Block} :
    CountedOnce host processor block ↔ (admission host processor.ledger block = .ok () →
      ∃ senders, BlockProcessor.recoverSenders host processor.chainId block.transactions = .ok senders) := by
  constructor
  · intro counted admitted
    cases recovered : BlockProcessor.recoverSenders host processor.chainId block.transactions with
    | ok senders => exact ⟨senders, rfl⟩
    | panic => exact absurd recovered (BlockProcessor.recoverSenders_ne_panic _ _ _)
    | err error =>
      have raised := counted.rejected error processor (processBlock_unrecovered reach.settled.1 admitted recovered)
      simp [Metrics.outcomes] at raised
  · refine fun recovers => ⟨fun after ran => ?_, fun error after failed => ?_⟩
    · obtain ⟨output, ledger, _, rfl⟩ := BlockProcessor.processBlock_ok reach.settled.1 ran
      rfl
    · obtain ⟨rejected, rfl⟩ := BlockProcessor.processBlock_err reach.settled.1 failed
      refine Metrics.reject_counted ?_
      rcases judge_err rejected with refused | ⟨admitted, unrecovered⟩ | executed
      · rcases admission_err refused with parent | number | reason
        · exact .inl parent
        · exact .inr (.inl number)
        · exact .inr (.inr (.inl reason))
      · obtain ⟨senders, recovered⟩ := recovers admitted
        rw [BlockProcessor.rules_host, BlockProcessor.rules_chainId, recovered] at unrecovered
        cases unrecovered
      · exact .inr (.inr (.inr executed))

theorem processBlock_counted_once_orphan :
    CountedOnce sampleHost (sampleGenesis.processor sampleHost) sampleSecond.block :=
  (processBlock_counted_once sample_reach).mpr fun _ => ⟨[], rfl⟩

/-- The first block of the sample, with a transfer whose recovery id makes no sense. -/
def unsignedBlock : Block := { sampleFirst.block with transactions := [{ sampleTransfer with v := 0 }] }

/-- The block is rejected, and none of the three counters says so. -/
theorem processBlock_uncounted : ∃ processor after, Reach sampleHost sampleGenesis processor ∧
    BlockProcessor.processBlock sampleHost unsignedBlock processor = .err (.signing .invalidSignature, after) ∧
    after.metrics.outcomes = processor.metrics.outcomes := by
  have evaluated : ((BlockProcessor.processBlock sampleHost unsignedBlock
      (sampleGenesis.processor sampleHost)).toError.map fun failure => (failure.1, failure.2.metrics.outcomes)) =
        some (.signing .invalidSignature, (0, 0, 0)) := by decide +kernel
  obtain ⟨⟨error, after⟩, failed, same⟩ := Option.map_eq_some_iff.mp evaluated
  obtain ⟨rfl, counters⟩ := Prod.mk.inj same
  exact ⟨_, after, sample_reach, Outcome.toError_eq_some.mp failed, counters⟩

end Reached

end MiniEthNode
