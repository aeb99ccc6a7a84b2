import MiniEthNode.Execution.Failure

namespace MiniEthNode
open Rust

section Validators

theorem checkParentHash_err {host : Host} {header parent : Header} {error : ExecutionError}
    (failed : checkParentHash host header parent = .err error) :
    error = .invalidParentHash (headerHash host parent) header.parentHash := by
  rw [checkParentHash, hashHeader_eq, Outcome.mapErr_ok, Outcome.ok_bind] at failed
  split at failed <;> cases failed
  rfl

theorem checkNumber_err {header parent : Header} {error : ExecutionError}
    (failed : checkNumber header parent = .err error) :
    error = .overflow ∨ ∃ expected, error = .invalidBlockNumber expected header.number := by
  rcases Outcome.bind_eq_err.mp failed with large | ⟨expected, _, failed⟩
  · exact .inl (Outcome.okOr_eq_err.mp large).2.symm
  · split at failed <;> cases failed
    exact .inr ⟨expected, rfl⟩

theorem checkGas_err {header : Header} {error : ExecutionError} (failed : checkGas header = .err error) :
    error = .gasLimitExceeded header.gasLimit header.gasUsed := by
  unfold checkGas at failed
  split at failed <;> cases failed
  rfl

theorem checkBody_err {maxTxs : Nat} {block : Block} {error : ExecutionError}
    (failed : checkBody maxTxs block = .err error) :
    error = .tooManyTransactions maxTxs block.transactions.length := by
  unfold checkBody at failed
  split at failed <;> cases failed
  rfl

/-- A validator whose errors are not about the journal. -/
structure JournalBlind (V : Type) [ConsensusValidator V] : Prop where
  header : ∀ (host : Host) (validator : V) header parent,
    ConsensusValidator.validateHeader host validator header parent ≠ .err .journalAlreadySet
  body : ∀ (validator : V) block, ConsensusValidator.validateBody validator block ≠ .err .journalAlreadySet

theorem journalBlind_basic : JournalBlind BasicValidator where
  header host validator header parent failed := by
    rcases Outcome.bind_eq_err.mp failed with unlinked | ⟨_, _, failed⟩
    · cases checkParentHash_err unlinked
    · cases checkGas_err failed
  body validator block failed := by cases checkBody_err failed

theorem journalBlind_strict : JournalBlind StrictValidator where
  header host validator header parent failed := by
    rcases Outcome.bind_eq_err.mp failed with unlinked | ⟨_, _, failed⟩
    · cases checkParentHash_err unlinked
    rcases Outcome.bind_eq_err.mp failed with misnumbered | ⟨_, _, failed⟩
    · rcases checkNumber_err misnumbered with same | ⟨_, same⟩ <;> cases same
    · cases checkGas_err failed
  body validator block failed := by cases checkBody_err failed

end Validators

section Pipeline
variable {V : Type} [ConsensusValidator V] {host : Host}

theorem executeOn_ne_journalAlreadySet (host : Host) (blockWithSenders : BlockWithSenders)
    (state : HashMap Address Account) : executeOn host blockWithSenders state ≠ .err .journalAlreadySet := by
  intro failed
  unfold executeOn at failed
  split at failed
  · cases failed
  · rename_i error after ran
    obtain ⟨_, _, _, _, _, _, _, _, fault⟩ := executeBlock_fault ran
    cases failed
    cases fault
  · cases failed

theorem getHeaderByHash_err {provider : InMemoryProvider} {hash : B256} {error : ExecutionError}
    (failed : provider.getHeaderByHash hash = .err error) :
    error = .headerNotFound hash ∨ ∃ number, error = .blockNotFound number := by
  rcases Outcome.bind_eq_err.mp failed with unknown | ⟨number, _, failed⟩
  · exact .inl (Outcome.okOr_eq_err.mp unknown).2.symm
  · exact .inr ⟨number, (Outcome.okOr_eq_err.mp failed).2.symm⟩

theorem transact_ne_journalAlreadySet (blind : JournalBlind V) (validator : V) (provider : InMemoryProvider)
    (blockWithSenders : BlockWithSenders) :
    transact host validator provider blockWithSenders ≠ .err .journalAlreadySet := by
  intro failed
  rcases Outcome.bind_eq_err.mp failed with unknown | ⟨parent, _, failed⟩
  · rcases getHeaderByHash_err unknown with same | ⟨_, same⟩ <;> cases same
  rcases Outcome.bind_eq_err.mp failed with invalid | ⟨_, _, failed⟩
  · exact blind.header _ _ _ _ invalid
  rcases Outcome.bind_eq_err.mp failed with invalid | ⟨_, _, failed⟩
  · exact blind.body _ _ invalid
  · exact executeOn_ne_journalAlreadySet _ _ _ failed

/-- Calls of `execute` on one pipeline, one after the other, with what each of them returned. -/
inductive Calls (host : Host) : Pipeline ValueTransferExecutor V →
    List (BlockWithSenders × Except ExecutionError ExecutionOutput) → Pipeline ValueTransferExecutor V → Prop
  | nil {pipeline} : Calls host pipeline [] pipeline
  | returned {pipeline blockWithSenders output between rest after} :
      Pipeline.execute host blockWithSenders pipeline = .ok (output, between) → Calls host between rest after →
      Calls host pipeline ((blockWithSenders, .ok output) :: rest) after
  | failed {pipeline blockWithSenders error between rest after} :
      Pipeline.execute host blockWithSenders pipeline = .err (error, between) → Calls host between rest after →
      Calls host pipeline ((blockWithSenders, .error error) :: rest) after

/-- What `execute` guarantees with a given kind of validator, from a provider without an open journal. -/
structure RollsBack (host : Host) (V : Type) [ConsensusValidator V] : Prop where
  restored : ∀ (pipeline : Pipeline ValueTransferExecutor V) blockWithSenders error after,
    pipeline.provider.journal = none → Pipeline.execute host blockWithSenders pipeline = .err (error, after) →
    after = pipeline
  closedOk : ∀ (pipeline : Pipeline ValueTransferExecutor V) blockWithSenders output after,
    pipeline.provider.journal = none → Pipeline.execute host blockWithSenders pipeline = .ok (output, after) →
    after.provider.journal = none
  closedErr : ∀ (pipeline : Pipeline ValueTransferExecutor V) blockWithSenders error after,
    pipeline.provider.journal = none → Pipeline.execute host blockWithSenders pipeline = .err (error, after) →
    after.provider.journal = none
  neverSet : ∀ (pipeline : Pipeline ValueTransferExecutor V) entries after,
    pipeline.provider.journal = none → Calls host pipeline entries after →
    ∀ entry ∈ entries, entry.2 ≠ .error .journalAlreadySet

theorem Pipeline.execute_closed {blockWithSenders : BlockWithSenders} {output : ExecutionOutput}
    {pipeline after : Pipeline ValueTransferExecutor V} (closed : pipeline.provider.journal = none)
    (ran : Pipeline.execute host blockWithSenders pipeline = .ok (output, after)) : after.provider.journal = none := by
  rw [Pipeline.execute_eq host blockWithSenders closed] at ran
  split at ran <;> cases ran
  exact closed

theorem Pipeline.execute_restored {blockWithSenders : BlockWithSenders} {error : ExecutionError}
    {pipeline after : Pipeline ValueTransferExecutor V} (closed : pipeline.provider.journal = none)
    (ran : Pipeline.execute host blockWithSenders pipeline = .err (error, after)) :
    after = pipeline ∧ transact host pipeline.validator pipeline.provider blockWithSenders = .err error := by
  rw [Pipeline.execute_eq host blockWithSenders closed] at ran
  split at ran <;> cases ran
  rename_i cause
  exact ⟨rfl, cause⟩

theorem Calls.never_set (blind : JournalBlind V) {pipeline after : Pipeline ValueTransferExecutor V}
    {entries : List (BlockWithSenders × Except ExecutionError ExecutionOutput)}
    (calls : Calls host pipeline entries after) (closed : pipeline.provider.journal = none) :
    ∀ entry ∈ entries, entry.2 ≠ .error .journalAlreadySet := by
  induction calls with
  | nil => simp
  | returned ran _ ih =>
    intro entry member
    rcases List.mem_cons.mp member with rfl | later
    · simp
    · exact ih (Pipeline.execute_closed closed ran) entry later
  | failed ran _ ih =>
    obtain ⟨rfl, cause⟩ := Pipeline.execute_restored closed ran
    intro entry member
    rcases List.mem_cons.mp member with rfl | later
    · rintro ⟨⟩
      exact transact_ne_journalAlreadySet blind _ _ _ cause
    · exact ih closed entry later

theorem rollsBack_of_blind (host : Host) (blind : JournalBlind V) : RollsBack host V where
  restored _ _ _ _ closed ran := (Pipeline.execute_restored closed ran).1
  closedOk _ _ _ _ closed ran := Pipeline.execute_closed closed ran
  closedErr _ _ _ _ closed ran := by rw [(Pipeline.execute_restored closed ran).1, closed]
  neverSet _ _ _ closed calls := calls.never_set blind closed

end Pipeline

/-- Whatever the validator and wherever the block fails, the provider is the one from before; the
journal is closed after every call that returns, so that no call finds it open. -/
theorem execute_rolls_back (host : Host) : RollsBack host BasicValidator ∧ RollsBack host StrictValidator :=
  ⟨rollsBack_of_blind host journalBlind_basic, rollsBack_of_blind host journalBlind_strict⟩

section Sample

/-- A chain of one empty block, and an account of 100. -/
def rollbackPipeline : Pipeline ValueTransferExecutor BasicValidator where
  provider := InMemoryProvider.withBlock (Host.ofGraph [] []) ⟨⟨.zero, .zero, .zero, .zero, 0, 0, 0, 0⟩, []⟩
    (freshProvider ((∅ : HashMap Address Account).insert (.ofNat 1) { Account.default with balance := 100 }))
  executor := ⟨⟩
  validator := ⟨100⟩

/-- The first transfer charges its sender and creates its recipient; the second has a wrong nonce. -/
def rollbackBlock : BlockWithSenders where
  block :=
    { header :=
        ⟨headerHash (Host.ofGraph [] []) ⟨.zero, .zero, .zero, .zero, 0, 0, 0, 0⟩, .zero, .zero, .zero, 0, 0, 1, 1⟩
      transactions :=
        [⟨.legacy 0 1 2 (some (.ofNat 2)) 3 [], 0, .zero, .zero⟩,
          ⟨.legacy 7 1 2 (some (.ofNat 2)) 3 [], 0, .zero, .zero⟩] }
  senders := [.ofNat 1, .ofNat 1]

theorem execute_rolls_back_second_transaction : ∃ after,
    Pipeline.execute (Host.ofGraph [] []) rollbackBlock rollbackPipeline = .err (.invalidNonce (.ofNat 1) 1 7, after) ∧
      after = rollbackPipeline := by
  have failed : ∃ after, Pipeline.execute (Host.ofGraph [] []) rollbackBlock rollbackPipeline =
      .err (.invalidNonce (.ofNat 1) 1 7, after) := ⟨_, rfl⟩
  obtain ⟨after, failed⟩ := failed
  exact ⟨after, failed, (execute_rolls_back (Host.ofGraph [] [])).1.restored _ _ _ _ rfl failed⟩

end Sample

end MiniEthNode
