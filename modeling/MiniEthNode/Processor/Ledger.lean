import MiniEthNode.Processor.Model

namespace MiniEthNode
open Rust

/-- What a run of the processor never changes. -/
structure Rules where
  host : Host
  chainId : U64
  validator : StrictValidator

/-- The part of the processor that a block can change for good. -/
structure Ledger where
  provider : InMemoryProvider
  chainHead : ChainHead
  sharedHead : ChainHead

namespace BlockProcessor

def rules (host : Host) (processor : BlockProcessor) : Rules := ⟨host, processor.chainId, processor.pipeline.validator⟩

def ledger (processor : BlockProcessor) : Ledger :=
  ⟨processor.pipeline.provider, processor.chainHead, processor.sharedHead⟩

def withLedger (ledger : Ledger) (processor : BlockProcessor) : BlockProcessor :=
  { processor with
    pipeline := { processor.pipeline with provider := ledger.provider }
    chainHead := ledger.chainHead
    sharedHead := ledger.sharedHead }

@[simp] theorem rules_host (host : Host) (processor : BlockProcessor) : (processor.rules host).host = host := rfl

@[simp] theorem rules_chainId (host : Host) (processor : BlockProcessor) :
    (processor.rules host).chainId = processor.chainId := rfl

@[simp] theorem rules_validator (host : Host) (processor : BlockProcessor) :
    (processor.rules host).validator = processor.pipeline.validator := rfl

@[simp] theorem ledger_provider (processor : BlockProcessor) :
    processor.ledger.provider = processor.pipeline.provider := rfl

@[simp] theorem ledger_chainHead (processor : BlockProcessor) : processor.ledger.chainHead = processor.chainHead := rfl

end BlockProcessor

/-- The checks on a block before it is executed. -/
def admission (host : Host) (ledger : Ledger) (block : Block) : Outcome ProcessorError Unit :=
  let number := block.header.number
  match ledger.provider.getBlockByHash block.header.parentHash with
  | .panic => .panic
  | .err _ => .err (.parentNotFound number)
  | .ok parentBlock => do
    let expected ← add host.overflowChecks parentBlock.header.number 1
    if expected ≠ number then .err (.invalidBlockNumber number expected)
    else if parentBlock.header.timestamp ≥ block.header.timestamp then
      .err (.validationFailed (BlockProcessor.timestampReason parentBlock.header block.header))
    else do
      let expected ← add host.overflowChecks ledger.chainHead.number 1
      if expected ≠ number then .err (.invalidBlockNumber number expected) else .ok ()

/-- The ledger with a block on top of it. -/
def Ledger.extend (host : Host) (ledger : Ledger) (block : Block) (state : HashMap Address Account)
    (totalDifficulty : U128) : Ledger :=
  let head : ChainHead := ⟨block.header.number, headerHash host block.header, totalDifficulty⟩
  ⟨InMemoryProvider.withBlock host block { ledger.provider with state := state }, head, head⟩

/-- Processing a block: what it makes of the ledger, or why it is rejected. -/
def judge (rules : Rules) (ledger : Ledger) (block : Block) : Outcome ProcessorError (ExecutionOutput × Ledger) := do
  admission rules.host ledger block
  let senders ← BlockProcessor.recoverSenders rules.host rules.chainId block.transactions
  let (output, state) ←
    (transact rules.host rules.validator ledger.provider ⟨block, senders⟩).mapErr ProcessorError.execution
  let totalDifficulty ←
    add rules.host.overflowChecks ledger.chainHead.totalDifficulty (block.header.gasUsed.setWidth 128)
  .ok (output, ledger.extend rules.host block state totalDifficulty)

/-- The counter that `process_block` raises for a rejection. An unrecoverable sender is not counted. -/
def Metrics.reject (metrics : Metrics) : ProcessorError → Metrics
  | .parentNotFound _ | .invalidBlockNumber .. | .validationFailed _ =>
    { metrics with blocksRejectedValidation := metrics.blocksRejectedValidation + 1 }
  | .execution _ => { metrics with blocksRejectedExecution := metrics.blocksRejectedExecution + 1 }
  | _ => metrics

/-- The counters that `process_block` raises for a commit. -/
def Metrics.commit (metrics : Metrics) (output : ExecutionOutput) : Metrics :=
  { metrics with
    blocksCommitted := metrics.blocksCommitted + 1
    transactionsCommitted := metrics.transactionsCommitted + BitVec.ofNat 64 output.receipts.length
    totalGasCommitted := metrics.totalGasCommitted + output.gasUsed }

namespace BlockProcessor

theorem checkBlock_eq (host : Host) (block : Block) (processor : BlockProcessor) :
    checkBlock host block processor =
      match admission host processor.ledger block with
      | .ok _ => .ok ((), processor)
      | .err error => .err (error, { processor with metrics := processor.metrics.reject error })
      | .panic => .panic := by
  simp only [checkBlock, admission, Exec.get_bind, ledger_provider, ledger_chainHead]
  cases processor.pipeline.provider.getBlockByHash block.header.parentHash with
  | panic => rfl
  | err error => rfl
  | ok parentBlock =>
    simp only [Exec.lift_bind]
    cases sum : add (ε := ProcessorError) host.overflowChecks parentBlock.header.number 1 with
    | panic => rfl
    | err error => exact absurd sum add_ne_err
    | ok expected =>
      simp only [Outcome.ok_bind]
      split
      · rfl
      · split
        · rfl
        · rw [Exec.lift_bind]
          cases next : add (ε := ProcessorError) host.overflowChecks processor.chainHead.number 1 with
          | panic => rfl
          | err error => exact absurd next add_ne_err
          | ok expected =>
            simp only [Outcome.ok_bind]
            split <;> rfl

theorem onPipeline_insertBlock (host : Host) (block : Block) (processor : BlockProcessor) :
    onPipeline (Pipeline.onProvider (Exec.mapErr ProcessorError.execution
      (InMemoryProvider.insertBlock host block))) processor =
      .ok ((), { processor with pipeline :=
        { processor.pipeline with provider := processor.pipeline.provider.withBlock host block } }) := by
  simp only [onPipeline, Pipeline.onProvider, Exec.focus, Exec.mapErr, InMemoryProvider.insertBlock_eq]

theorem commitBlock_eq (host : Host) (block : Block) (output : ExecutionOutput) (processor : BlockProcessor) :
    commitBlock host block output processor =
      match add (ε := ProcessorError) host.overflowChecks processor.chainHead.totalDifficulty
        (block.header.gasUsed.setWidth 128) with
      | .ok totalDifficulty => .ok ((),
          { processor.withLedger (processor.ledger.extend host block processor.pipeline.provider.state totalDifficulty)
            with metrics := processor.metrics.commit output })
      | .err error => .err (error, processor)
      | .panic => .panic := by
  rw [commitBlock, hashHeader_eq, Outcome.mapErr_ok, Exec.bind_ok (Exec.lift_ok _ _),
    Exec.bind_ok (onPipeline_insertBlock host block processor), Exec.get_bind, Exec.lift_bind]
  cases sum : add (ε := ProcessorError) host.overflowChecks processor.chainHead.totalDifficulty
    (block.header.gasUsed.setWidth 128) with
  | panic => rfl
  | err error => exact absurd sum add_ne_err
  | ok totalDifficulty => rfl

theorem recoverSenders_err {host : Host} {chainId : U64} {transactions : List SignedTransaction}
    {error : ProcessorError} (failed : recoverSenders host chainId transactions = .err error) :
    ∃ cause, error = .signing cause := by
  induction transactions with
  | nil => cases failed
  | cons tx rest ih =>
    rw [recoverSenders] at failed
    cases recovered : recoverSender host tx chainId with
    | panic => simp [recovered] at failed
    | err cause =>
      simp only [recovered, Outcome.mapErr_err, Outcome.err_bind, Outcome.err.injEq] at failed
      exact ⟨cause, failed.symm⟩
    | ok sender =>
      simp only [recovered, Outcome.mapErr_ok, Outcome.ok_bind] at failed
      cases later : recoverSenders host chainId rest with
      | panic => simp [later] at failed
      | err error' =>
        simp only [later, Outcome.err_bind, Outcome.err.injEq] at failed
        exact ih (failed ▸ later)
      | ok senders => simp [later] at failed

theorem recoverSenders_ne_panic (host : Host) (chainId : U64) (transactions : List SignedTransaction) :
    recoverSenders host chainId transactions ≠ .panic := by
  induction transactions with
  | nil => simp [recoverSenders]
  | cons tx rest ih =>
    exact Outcome.bind_ne_panic (Outcome.mapErr_ne_panic (recoverSender_ne_panic host tx chainId)) fun _ _ =>
      Outcome.bind_ne_panic ih fun _ _ => by simp

/-- `process_block` is `judge` on the ledger, with the counters. -/
theorem processBlock_eq (host : Host) (block : Block) {processor : BlockProcessor}
    (closed : processor.pipeline.provider.journal = none) :
    processBlock host block processor =
      match judge (processor.rules host) processor.ledger block with
      | .ok (output, ledger) => .ok ((),
          { processor.withLedger ledger with metrics := processor.metrics.commit output })
      | .err error => .err (error, { processor with metrics := processor.metrics.reject error })
      | .panic => .panic := by
  rw [processBlock, judge, Exec.bind_run, checkBlock_eq]
  simp only [rules_host, rules_chainId, rules_validator, ledger_provider, ledger_chainHead]
  cases admission host processor.ledger block with
  | panic => rfl
  | err error => rfl
  | ok _ =>
    simp only [Outcome.ok_bind, Exec.read_bind, buildBlockWithSenders]
    cases recovered : recoverSenders host processor.chainId block.transactions with
    | panic => rfl
    | err error =>
      obtain ⟨cause, rfl⟩ := recoverSenders_err recovered
      rfl
    | ok senders =>
      simp only [Outcome.ok_bind]
      have executed := Pipeline.execute_eq host ⟨block, senders⟩ closed
      cases result : transact host processor.pipeline.validator processor.pipeline.provider ⟨block, senders⟩ with
      | panic =>
        rw [result] at executed
        rw [Exec.bind_panic (by simp only [Exec.attempt, onPipeline, Exec.focus, executed])]
        rfl
      | err error =>
        rw [result] at executed
        rw [Exec.bind_ok (by simp only [Exec.attempt, onPipeline, Exec.focus, executed]; rfl)]
        rfl
      | ok outcome =>
        obtain ⟨output, state⟩ := outcome
        rw [result] at executed
        rw [Exec.bind_ok (by simp only [Exec.attempt, onPipeline, Exec.focus, executed]; rfl)]
        simp only [commitBlock_eq, Outcome.mapErr_ok, Outcome.ok_bind]
        cases sum : add (ε := ProcessorError) host.overflowChecks processor.chainHead.totalDifficulty
          (block.header.gasUsed.setWidth 128) with
        | panic => rfl
        | err error => exact absurd sum add_ne_err
        | ok totalDifficulty => rfl

end BlockProcessor

/-- No journal is open between blocks. -/
def Ledger.Closed (ledger : Ledger) : Prop := ledger.provider.journal = none

/-- Everything that a committed block has passed, and what it leaves. -/
structure Commit (rules : Rules) (ledger : Ledger) (block parent : Block) (senders : List Address)
    (output : ExecutionOutput) (state : HashMap Address Account) (totalDifficulty : U128) : Prop where
  parentFound : ledger.provider.getBlockByHash block.header.parentHash = .ok parent
  follows : parent.header.number.toNat + 1 = block.header.number.toNat
  onHead : parent.header.number = ledger.chainHead.number
  later : parent.header.timestamp < block.header.timestamp
  linked : headerHash rules.host parent.header = block.header.parentHash
  gasWithin : block.header.gasUsed ≤ block.header.gasLimit
  sizeWithin : block.transactions.length ≤ rules.validator.maxTxs
  recovered : BlockProcessor.recoverSenders rules.host rules.chainId block.transactions = .ok senders
  executed : executeOn rules.host ⟨block, senders⟩ ledger.provider.state = .ok (output, state)
  difficulty : add (ε := ProcessorError) rules.host.overflowChecks ledger.chainHead.totalDifficulty
    (block.header.gasUsed.setWidth 128) = .ok totalDifficulty

theorem getBlockByHash_ne_panic (provider : InMemoryProvider) (hash : B256) :
    provider.getBlockByHash hash ≠ .panic :=
  Outcome.bind_ne_panic Outcome.okOr_ne_panic fun _ _ => Outcome.okOr_ne_panic

theorem getHeaderByHash_ne_panic (provider : InMemoryProvider) (hash : B256) :
    provider.getHeaderByHash hash ≠ .panic :=
  Outcome.bind_ne_panic Outcome.okOr_ne_panic fun _ _ => Outcome.okOr_ne_panic

theorem getHeaderByHash_eq {provider : InMemoryProvider} {hash : B256} {block : Block}
    (found : provider.getBlockByHash hash = .ok block) : provider.getHeaderByHash hash = .ok block.header := by
  unfold InMemoryProvider.getBlockByHash InMemoryProvider.getBlockByNumber at found
  unfold InMemoryProvider.getHeaderByHash InMemoryProvider.getHeaderByNumber
  obtain ⟨number, atHash, found⟩ := Outcome.bind_eq_ok.mp found
  rw [atHash, Outcome.ok_bind, Outcome.okOr_eq_ok.mp found]
  rfl

theorem admission_ok {host : Host} {ledger : Ledger} {block : Block} (admitted : admission host ledger block = .ok ()) :
    ∃ parent, ledger.provider.getBlockByHash block.header.parentHash = .ok parent ∧
      parent.header.number + 1 = block.header.number ∧ parent.header.timestamp < block.header.timestamp ∧
      ledger.chainHead.number + 1 = block.header.number := by
  unfold admission at admitted
  cases found : ledger.provider.getBlockByHash block.header.parentHash with
  | panic => simp [found] at admitted
  | err error => simp [found] at admitted
  | ok parent =>
    simp only [found] at admitted
    obtain ⟨expected, sum, admitted⟩ := Outcome.bind_eq_ok.mp admitted
    split at admitted
    · cases admitted
    · rename_i first
      split at admitted
      · cases admitted
      · rename_i later
        obtain ⟨expected', sum', admitted⟩ := Outcome.bind_eq_ok.mp admitted
        split at admitted
        · cases admitted
        · rename_i second
          refine ⟨parent, rfl, ?_, BitVec.not_le.mp later, ?_⟩
          · rw [← add_eq_ok sum, not_not.mp first]
          · rw [← add_eq_ok sum', not_not.mp second]

theorem validateHeader_ok {host : Host} {validator : StrictValidator} {header parent : Header}
    (valid : ConsensusValidator.validateHeader host validator header parent = .ok ()) :
    headerHash host parent = header.parentHash ∧ parent.number.toNat + 1 = header.number.toNat ∧
      header.gasUsed ≤ header.gasLimit := by
  obtain ⟨_, hashed, valid⟩ := Outcome.bind_eq_ok.mp valid
  obtain ⟨_, numbered, gas⟩ := Outcome.bind_eq_ok.mp valid
  refine ⟨?_, ?_, ?_⟩
  · rw [checkParentHash, hashHeader_eq, Outcome.mapErr_ok, Outcome.ok_bind] at hashed
    split at hashed
    · cases hashed
    · rename_i same
      exact (not_not.mp same).symm
  · obtain ⟨expected, sum, numbered⟩ := Outcome.bind_eq_ok.mp numbered
    rw [Outcome.okOr_eq_ok, checkedAdd_eq_some] at sum
    split at numbered
    · cases numbered
    · rename_i same
      rw [not_not.mp same, ← sum]
      rfl
  · unfold checkGas at gas
    split at gas
    · cases gas
    · rename_i within
      exact BitVec.not_lt.mp within

/-- The only way for a block to change the ledger. -/
theorem judge_ok {rules : Rules} {ledger ledger' : Ledger} {block : Block} {output : ExecutionOutput}
    (committed : judge rules ledger block = .ok (output, ledger')) :
    ∃ parent senders state totalDifficulty,
      Commit rules ledger block parent senders output state totalDifficulty ∧
        ledger' = ledger.extend rules.host block state totalDifficulty := by
  obtain ⟨_, admitted, committed⟩ := Outcome.bind_eq_ok.mp committed
  obtain ⟨parent, found, next, later, onHead⟩ := admission_ok admitted
  obtain ⟨senders, recovered, committed⟩ := Outcome.bind_eq_ok.mp committed
  obtain ⟨⟨output', state⟩, executed, committed⟩ := Outcome.bind_eq_ok.mp committed
  obtain ⟨totalDifficulty, difficulty, committed⟩ := Outcome.bind_eq_ok.mp committed
  cases committed
  obtain ⟨parentHeader, foundHeader, executed⟩ := Outcome.bind_eq_ok.mp (Outcome.mapErr_eq_ok.mp executed)
  rw [getHeaderByHash_eq found, Outcome.ok.injEq] at foundHeader
  subst foundHeader
  obtain ⟨_, valid, executed⟩ := Outcome.bind_eq_ok.mp executed
  obtain ⟨linked, follows, gasWithin⟩ := validateHeader_ok valid
  obtain ⟨_, body, executed⟩ := Outcome.bind_eq_ok.mp executed
  have sizeWithin : block.transactions.length ≤ rules.validator.maxTxs := by
    change checkBody _ _ = _ at body
    unfold checkBody at body
    split at body
    · cases body
    · rename_i within
      exact Nat.not_lt.mp within
  refine ⟨parent, senders, state, totalDifficulty, ⟨found, follows, ?_, later, linked, gasWithin, sizeWithin,
    recovered, executed, difficulty⟩, rfl⟩
  have same : parent.header.number + 1 = ledger.chainHead.number + 1 := next.trans onHead.symm
  bv_omega

theorem admission_of {host : Host} {ledger : Ledger} {block parent : Block}
    (found : ledger.provider.getBlockByHash block.header.parentHash = .ok parent)
    (follows : parent.header.number.toNat + 1 = block.header.number.toNat)
    (later : parent.header.timestamp < block.header.timestamp)
    (onHead : parent.header.number = ledger.chainHead.number) : admission host ledger block = .ok () := by
  have bound := block.header.number.isLt
  have fits : parent.header.number.toNat + (1 : U64).toNat < 2 ^ 64 := by
    change _ + 1 < _
    omega
  have next : parent.header.number + 1 = block.header.number := by bv_omega
  simp only [admission, found, ← onHead, add_of_fits fun _ => fits, Outcome.ok_bind, next, ne_eq, not_true_eq_false, if_false]
  exact if_neg (BitVec.not_le.mpr later)

theorem validateHeader_of {host : Host} {validator : StrictValidator} {header parent : Header}
    (linked : headerHash host parent = header.parentHash) (follows : parent.number.toNat + 1 = header.number.toNat)
    (gasWithin : header.gasUsed ≤ header.gasLimit) :
    ConsensusValidator.validateHeader host validator header parent = .ok () := by
  refine Outcome.bind_eq_ok.mpr ⟨(), ?_, Outcome.bind_eq_ok.mpr ⟨(), ?_, if_neg (BitVec.not_lt.mpr gasWithin)⟩⟩
  · rw [checkParentHash, hashHeader_eq, Outcome.mapErr_ok, Outcome.ok_bind]
    exact if_neg (not_not.mpr linked.symm)
  · exact Outcome.bind_eq_ok.mpr ⟨header.number, Outcome.okOr_eq_ok.mpr (checkedAdd_eq_some.mpr follows),
      if_neg (not_not.mpr rfl)⟩

/-- A block that passes all of it is committed. -/
theorem Commit.judged {rules : Rules} {ledger : Ledger} {block parent : Block} {senders : List Address}
    {output : ExecutionOutput} {state : HashMap Address Account} {totalDifficulty : U128}
    (commit : Commit rules ledger block parent senders output state totalDifficulty) :
    judge rules ledger block = .ok (output, ledger.extend rules.host block state totalDifficulty) := by
  have admitted : admission rules.host ledger block = .ok () :=
    admission_of commit.parentFound commit.follows commit.later commit.onHead
  have executed : transact rules.host rules.validator ledger.provider ⟨block, senders⟩ = .ok (output, state) := by
    refine Outcome.bind_eq_ok.mpr ⟨parent.header, getHeaderByHash_eq commit.parentFound, ?_⟩
    refine Outcome.bind_eq_ok.mpr ⟨(), validateHeader_of commit.linked commit.follows commit.gasWithin, ?_⟩
    exact Outcome.bind_eq_ok.mpr ⟨(), if_neg (Nat.not_lt.mpr commit.sizeWithin), commit.executed⟩
  rw [judge, admitted, Outcome.ok_bind, commit.recovered, Outcome.ok_bind, executed, Outcome.mapErr_ok,
    Outcome.ok_bind, commit.difficulty]
  rfl

theorem judge_closed {rules : Rules} {ledger ledger' : Ledger} {block : Block} {output : ExecutionOutput}
    (closed : ledger.Closed) (committed : judge rules ledger block = .ok (output, ledger')) : ledger'.Closed := by
  obtain ⟨_, _, _, _, _, rfl⟩ := judge_ok committed
  exact closed

theorem judge_number {rules : Rules} {ledger ledger' : Ledger} {block : Block} {output : ExecutionOutput}
    (committed : judge rules ledger block = .ok (output, ledger')) :
    block.header.number.toNat = ledger.chainHead.number.toNat + 1 ∧
      ledger'.chainHead.number = block.header.number := by
  obtain ⟨parent, senders, state, totalDifficulty, commit, rfl⟩ := judge_ok committed
  refine ⟨?_, rfl⟩
  rw [← commit.follows, commit.onHead]

end MiniEthNode
