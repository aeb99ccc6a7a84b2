import MiniEthNode.Execution.Executor

namespace MiniEthNode
open Rust

class ConsensusValidator (V : Type) where
  validateHeader : Host → V → (header parent : Header) → Outcome ExecutionError Unit
  validateBody : V → Block → Outcome ExecutionError Unit

/-- The first check of both validators, against the recomputed hash of the parent. -/
def checkParentHash (host : Host) (header parent : Header) : Outcome ExecutionError Unit := do
  let parentHash ← (hashHeader host parent).mapErr .rlp
  if header.parentHash ≠ parentHash then .err (.invalidParentHash parentHash header.parentHash) else .ok ()

/-- The last check of both validators. -/
def checkGas (header : Header) : Outcome ExecutionError Unit :=
  if header.gasUsed > header.gasLimit then .err (.gasLimitExceeded header.gasLimit header.gasUsed) else .ok ()

/-- The body check of both validators. -/
def checkBody (maxTxs : Nat) (block : Block) : Outcome ExecutionError Unit :=
  if block.transactions.length > maxTxs then .err (.tooManyTransactions maxTxs block.transactions.length) else .ok ()

/-- The check that only the strict validator makes. -/
def checkNumber (header parent : Header) : Outcome ExecutionError Unit := do
  let actualBlockNumber ← Outcome.okOr (checkedAdd parent.number 1) .overflow
  if header.number ≠ actualBlockNumber then .err (.invalidBlockNumber actualBlockNumber header.number) else .ok ()

structure BasicValidator where
  maxTxs : Nat

instance : ConsensusValidator BasicValidator where
  validateHeader host _ header parent := do
    checkParentHash host header parent
    checkGas header
  validateBody validator block := checkBody validator.maxTxs block

structure StrictValidator where
  maxTxs : Nat

instance : ConsensusValidator StrictValidator where
  validateHeader host _ header parent := do
    checkParentHash host header parent
    checkNumber header parent
    checkGas header
  validateBody validator block := checkBody validator.maxTxs block

structure Pipeline (E V : Type) where
  provider : InMemoryProvider
  executor : E
  validator : V

namespace Pipeline
variable {E V Output : Type}

/-- A call on the provider of a pipeline. -/
def onProvider {ε α : Type} (x : Exec InMemoryProvider ε α) : Exec (Pipeline E V) ε α :=
  Exec.focus (·.provider) (fun provider pipeline => { pipeline with provider := provider }) x

def execute [BlockExecutor E Output] [ConsensusValidator V] (host : Host) (blockWithSenders : BlockWithSenders) :
    Exec (Pipeline E V) ExecutionError Output := do
  let header := blockWithSenders.block.header
  let parentHeader ← Exec.read fun pipeline => pipeline.provider.getHeaderByHash header.parentHash
  Exec.read fun pipeline => ConsensusValidator.validateHeader host pipeline.validator header parentHeader
  Exec.read fun pipeline => ConsensusValidator.validateBody pipeline.validator blockWithSenders.block
  onProvider InMemoryProvider.beginJournal
  let pipeline ← Exec.get
  let output ← Exec.attempt (onProvider (BlockExecutor.execute host pipeline.executor blockWithSenders))
  match output with
  | .error error => do
    Exec.modify fun pipeline => { pipeline with provider := pipeline.provider.rollbackJournal host }
    Exec.throw error
  | .ok output => do
    Exec.modify fun pipeline => { pipeline with provider := pipeline.provider.commitJournal }
    pure output

end Pipeline

section Exactness
variable {V : Type} [ConsensusValidator V]

/-- A fresh provider that holds nothing but accounts. -/
def freshProvider (state : HashMap Address Account) : InMemoryProvider :=
  { InMemoryProvider.default with state := state }

/-- Execution as a function of the accounts: a run of the executor on a fresh provider. -/
def executeOn (host : Host) (blockWithSenders : BlockWithSenders) (state : HashMap Address Account) :
    Outcome ExecutionError (ExecutionOutput × HashMap Address Account) :=
  match executeBlock host blockWithSenders (freshProvider state) with
  | .ok (output, provider) => .ok (output, provider.state)
  | .err (error, _) => .err error
  | .panic => .panic

/-- `Pipeline::execute` as a function: validation and then execution on the accounts. -/
def transact (host : Host) (validator : V) (provider : InMemoryProvider) (blockWithSenders : BlockWithSenders) :
    Outcome ExecutionError (ExecutionOutput × HashMap Address Account) := do
  let header := blockWithSenders.block.header
  let parentHeader ← provider.getHeaderByHash header.parentHash
  ConsensusValidator.validateHeader host validator header parentHeader
  ConsensusValidator.validateBody validator blockWithSenders.block
  executeOn host blockWithSenders provider.state

/-- All but the accounts and the journal is as in `base`. -/
def Framed (base provider : InMemoryProvider) : Prop :=
  ∃ state journal, provider = { base with state := state, journal := journal }

theorem framed_stable (base : InMemoryProvider) : Stable (Framed base) := by
  rintro _ address info ⟨state, journal, rfl⟩
  exact ⟨_, _, rfl⟩

/-- Under an open journal the executor either changes the accounts alone, as it would on a fresh
provider, or fails with the old accounts still recorded. -/
theorem executeBlock_journaled (host : Host) (blockWithSenders : BlockWithSenders) (base : InMemoryProvider) :
    match executeBlock host blockWithSenders { base with journal := some ∅ } with
    | .ok (output, provider) => Framed base provider ∧
        executeOn host blockWithSenders base.state = .ok (output, provider.state)
    | .err (error, provider) => Framed base provider ∧ provider.Journaled base.state ∧
        executeOn host blockWithSenders base.state = .err error
    | .panic => executeOn host blockWithSenders base.state = .panic := by
  have stable : Stable fun provider => Framed base provider ∧ provider.Journaled base.state :=
    fun provider address info holds => ⟨framed_stable base provider address info holds.1, holds.2.setAccount address info⟩
  have agree := executeBlock_relates stable (Q := fun _ => True) (fun _ _ _ _ => trivial) host blockWithSenders
    { base with journal := some ∅ } (freshProvider base.state)
    ⟨rfl, ⟨⟨base.state, some ∅, rfl⟩, base.journaled_begin⟩, trivial⟩
  unfold executeOn
  rcases agree.inv with ⟨output, p, q, here, there, states, ⟨framed, _⟩, _⟩ |
    ⟨error, p, q, here, there, _, ⟨framed, journaled⟩, _⟩ | ⟨here, there⟩
  · rw [here, there]
    exact ⟨framed, by rw [states]⟩
  · rw [here, there]
    exact ⟨framed, journaled, rfl⟩
  · rw [here, there]

/-- With no journal open, the pipeline changes the accounts as a whole or not at all. -/
theorem Pipeline.execute_eq (host : Host) (blockWithSenders : BlockWithSenders)
    {pipeline : Pipeline ValueTransferExecutor V} (closed : pipeline.provider.journal = none) :
    Pipeline.execute host blockWithSenders pipeline =
      match transact host pipeline.validator pipeline.provider blockWithSenders with
      | .ok (output, state) => .ok (output, { pipeline with provider := { pipeline.provider with state := state } })
      | .err error => .err (error, pipeline)
      | .panic => .panic := by
  have opened : onProvider InMemoryProvider.beginJournal pipeline =
      (.ok ((), { pipeline with provider := { pipeline.provider with journal := some ∅ } }) :
        Outcome (ExecutionError × _) _) := by
    simp [onProvider, Exec.focus, InMemoryProvider.beginJournal, closed]
  have reset : { pipeline.provider with journal := none } = pipeline.provider := by rw [← closed]
  have journaled := executeBlock_journaled host blockWithSenders pipeline.provider
  simp only [execute, transact, Exec.read_bind]
  cases pipeline.provider.getHeaderByHash blockWithSenders.block.header.parentHash with
  | err error => rfl
  | panic => rfl
  | ok parentHeader =>
    simp only [Outcome.ok_bind]
    cases ConsensusValidator.validateHeader host pipeline.validator blockWithSenders.block.header parentHeader with
    | err error => rfl
    | panic => rfl
    | ok _ =>
      simp only [Outcome.ok_bind]
      cases ConsensusValidator.validateBody pipeline.validator blockWithSenders.block with
      | err error => rfl
      | panic => rfl
      | ok _ =>
        simp only [Outcome.ok_bind, Exec.bind_ok opened, Exec.get_bind, BlockExecutor.execute]
        cases ran : executeBlock host blockWithSenders { pipeline.provider with journal := some ∅ } with
        | ok result =>
          obtain ⟨output, provider⟩ := result
          rw [ran] at journaled
          obtain ⟨⟨state, journal, rfl⟩, executed⟩ := journaled
          rw [executed, Exec.bind_run]
          simp only [Exec.attempt, onProvider, Exec.focus, ran, Exec.modify_bind, Exec.pure_run]
          simp only [InMemoryProvider.commitJournal, closed]
        | err result =>
          obtain ⟨error, provider⟩ := result
          rw [ran] at journaled
          obtain ⟨⟨state, journal, rfl⟩, recorded, executed⟩ := journaled
          rw [executed, Exec.bind_run]
          simp only [Exec.attempt, onProvider, Exec.focus, ran, Exec.modify_bind, Exec.throw_run,
            InMemoryProvider.rollbackJournal_eq host recorded, reset]
        | panic =>
          rw [ran] at journaled
          rw [journaled, Exec.bind_run]
          simp only [Exec.attempt, onProvider, Exec.focus, ran]

end Exactness

end MiniEthNode
