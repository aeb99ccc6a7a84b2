import MiniEthNode.Execution.Totality
import MiniEthNode.Processor.Rejection
import MiniEthNode.RlpCodec.Decodable

namespace MiniEthNode
open Rust

/-- A block that passes every check and whose execution gets to a creation that is paid for. -/
def CreationStop (host : Host) (processor : BlockProcessor) (block : Block) : Prop :=
  let provider := processor.pipeline.provider
  let validator := processor.pipeline.validator
  BlockProcessor.checkBlock host block processor = .ok ((), processor) ∧ ∃ senders parent,
    BlockProcessor.recoverSenders host processor.chainId block.transactions = .ok senders ∧
    provider.getHeaderByHash block.header.parentHash = .ok parent ∧
    ConsensusValidator.validateHeader host validator block.header parent = .ok () ∧
    ConsensusValidator.validateBody validator block = .ok () ∧
    ReachesCreation host ⟨block, senders⟩ provider.state

/-- A block that would be committed if the difficulty of the head had room for its gas. -/
def DifficultyStop (host : Host) (processor : BlockProcessor) (block : Block) : Prop :=
  host.overflowChecks = true ∧
  2 ^ 128 ≤ processor.chainHead.totalDifficulty.toNat + block.header.gasUsed.toNat ∧
  BlockProcessor.checkBlock host block processor = .ok ((), processor) ∧ ∃ senders executed,
    BlockProcessor.recoverSenders host processor.chainId block.transactions = .ok senders ∧
    transact host processor.pipeline.validator processor.pipeline.provider ⟨block, senders⟩ = .ok executed

theorem checkBlock_eq_ok_iff {host : Host} {block : Block} {processor : BlockProcessor} :
    BlockProcessor.checkBlock host block processor = .ok ((), processor) ↔
      admission host processor.ledger block = .ok () := by
  rw [BlockProcessor.checkBlock_eq]
  cases admission host processor.ledger block <;> simp

theorem validateBody_ne_panic (validator : StrictValidator) (block : Block) :
    ConsensusValidator.validateBody validator block ≠ .panic := by
  change checkBody _ _ ≠ _
  unfold checkBody
  split <;> simp

theorem transact_panic_iff {host : Host} {validator : StrictValidator} {provider : InMemoryProvider}
    {blockWithSenders : BlockWithSenders} :
    transact host validator provider blockWithSenders = .panic ↔ ∃ parent,
      provider.getHeaderByHash blockWithSenders.block.header.parentHash = .ok parent ∧
      ConsensusValidator.validateHeader host validator blockWithSenders.block.header parent = .ok () ∧
      ConsensusValidator.validateBody validator blockWithSenders.block = .ok () ∧
      ReachesCreation host blockWithSenders provider.state := by
  rw [transact, Outcome.bind_eq_panic, or_iff_right (getHeaderByHash_ne_panic _ _)]
  refine exists_congr fun parent => and_congr_right fun _ => ?_
  rw [Outcome.bind_eq_panic, or_iff_right (validateHeader_ne_panic _ _ _ _)]
  constructor
  · rintro ⟨_, header, stopped⟩
    rcases Outcome.bind_eq_panic.mp stopped with body | ⟨_, body, stopped⟩
    · exact absurd body (validateBody_ne_panic _ _)
    · exact ⟨header, body, executeOn_panic_iff.mp stopped⟩
  · rintro ⟨header, body, creation⟩
    exact ⟨(), header, Outcome.bind_eq_panic.mpr (.inr ⟨(), body, executeOn_panic_iff.mpr creation⟩)⟩

/-- After the first checks, a block stops the processor in its execution or at the new difficulty. -/
theorem judge_panic_iff {rules : Rules} {ledger : Ledger} {block : Block}
    (admitted : admission rules.host ledger block ≠ .panic) :
    judge rules ledger block = .panic ↔
      (admission rules.host ledger block = .ok () ∧ ∃ senders,
        BlockProcessor.recoverSenders rules.host rules.chainId block.transactions = .ok senders ∧
        transact rules.host rules.validator ledger.provider ⟨block, senders⟩ = .panic) ∨
      (rules.host.overflowChecks = true ∧
        2 ^ 128 ≤ ledger.chainHead.totalDifficulty.toNat + block.header.gasUsed.toNat ∧
        admission rules.host ledger block = .ok () ∧ ∃ senders executed,
          BlockProcessor.recoverSenders rules.host rules.chainId block.transactions = .ok senders ∧
          transact rules.host rules.validator ledger.provider ⟨block, senders⟩ = .ok executed) := by
  have widened : (block.header.gasUsed.setWidth 128).toNat = block.header.gasUsed.toNat :=
    BitVec.toNat_setWidth_of_le (by decide)
  rw [judge, Outcome.bind_eq_panic, or_iff_right admitted]
  constructor
  · rintro ⟨_, passed, stopped⟩
    rcases Outcome.bind_eq_panic.mp stopped with unrecovered | ⟨senders, recovered, stopped⟩
    · exact absurd unrecovered (BlockProcessor.recoverSenders_ne_panic _ _ _)
    rcases Outcome.bind_eq_panic.mp stopped with executed | ⟨executed, ran, stopped⟩
    · exact .inl ⟨passed, senders, recovered, Outcome.mapErr_eq_panic.mp executed⟩
    rcases Outcome.bind_eq_panic.mp stopped with overflow | ⟨_, _, committed⟩
    · obtain ⟨checks, large⟩ := add_eq_panic_iff.mp overflow
      rw [widened] at large
      exact .inr ⟨checks, large, passed, senders, executed, recovered, Outcome.mapErr_eq_ok.mp ran⟩
    · cases committed
  · rintro (⟨passed, senders, recovered, stopped⟩ | ⟨checks, large, passed, senders, executed, recovered, ran⟩)
    · refine ⟨(), passed, Outcome.bind_eq_panic.mpr (.inr ⟨senders, recovered, ?_⟩)⟩
      exact Outcome.bind_eq_panic.mpr (.inl (Outcome.mapErr_eq_panic.mpr stopped))
    · refine ⟨(), passed, Outcome.bind_eq_panic.mpr (.inr ⟨senders, recovered, ?_⟩)⟩
      refine Outcome.bind_eq_panic.mpr (.inr ⟨executed, Outcome.mapErr_eq_ok.mpr ran, ?_⟩)
      exact Outcome.bind_eq_panic.mpr (.inl (add_eq_panic_iff.mpr ⟨checks, by rwa [widened]⟩))

section Reached
variable {host : Host} {genesis : Genesis} {processor : BlockProcessor}

/-- The difficulty that the blocks have added up has room for one more block. -/
theorem Reach.difficulty_fits (reach : Reach host genesis processor)
    (below : processor.chainHead.number.toNat < 2 ^ 64 - 1) (small : genesis.totalDifficulty.toNat ≤ 2 ^ 64)
    (gasUsed : U64) : processor.chainHead.totalDifficulty.toNat + gasUsed.toNat < 2 ^ 128 := by
  obtain ⟨holds, committed⟩ := reach.holds
  have height : processor.committedBlocks.length + 1 = processor.chainHead.number.toNat + 1 := holds.height
  have sum : processor.chainHead.totalDifficulty.toNat =
      (genesis.totalDifficulty.toNat + gasTotal processor.committedBlocks) % 2 ^ 128 := committed.difficulty.1
  have wrapped := Nat.mod_le (genesis.totalDifficulty.toNat + gasTotal processor.committedBlocks) (2 ^ 128)
  have bound := gasTotal_le processor.committedBlocks
  have product : processor.committedBlocks.length * (2 ^ 64 - 1) ≤ (2 ^ 64 - 2) * (2 ^ 64 - 1) :=
    Nat.mul_le_mul_right _ (by omega)
  have gas := gasUsed.isLt
  omega

/-- `process_block` stops at a creation that is paid for and at an overflow of the difficulty, and
nowhere else. No number overflows, and the difficulty does not if it has started low enough. -/
theorem processBlock_panic_iff (reach : Reach host genesis processor)
    (below : processor.chainHead.number.toNat < 2 ^ 64 - 1) (block : Block) :
    (BlockProcessor.processBlock host block processor = .panic ↔
      CreationStop host processor block ∨ DifficultyStop host processor block) ∧
    (∀ parent, processor.pipeline.provider.getBlockByHash block.header.parentHash = .ok parent →
      parent.header.number.toNat + 1 < 2 ^ 64) ∧
    (genesis.totalDifficulty.toNat ≤ 2 ^ 64 →
      processor.chainHead.totalDifficulty.toNat + block.header.gasUsed.toNat < 2 ^ 128) := by
  have whole : BlockProcessor.processBlock host block processor = .panic ↔
      judge (processor.rules host) processor.ledger block = .panic := by
    rw [BlockProcessor.processBlock_eq host block reach.settled.1]
    cases judge (processor.rules host) processor.ledger block <;> simp
  refine ⟨?_, fun parent found => ?_, fun small => reach.difficulty_fits below small _⟩
  · have admitted : admission host processor.ledger block ≠ .panic := reach.steady.admission_ne_panic
    rw [whole, judge_panic_iff admitted, CreationStop, DifficultyStop,
      checkBlock_eq_ok_iff]
    simp only [transact_panic_iff, exists_and_left]
    rfl
  · have most : _ ≤ processor.chainHead.number.toNat := reach.holds.1.parent_number_le found
    omega

end Reached

section Sample

/-- The transfer of the sample block is not a creation. -/
theorem processBlock_panic_iff_transfer :
    ¬ CreationStop sampleHost (sampleGenesis.processor sampleHost) sampleFirst.block := by
  have returns : (BlockProcessor.processBlock sampleHost sampleFirst.block
      (sampleGenesis.processor sampleHost)).isPanic = false := by decide +kernel
  intro creation
  have stopped := (processBlock_panic_iff sample_reach (by decide) sampleFirst.block).1.mpr (.inl creation)
  rw [stopped] at returns
  cases returns

/-- The digest and the recovered key that a signed creation asks for. -/
def creationHost : Host := sampleHost.extend [
  (toBeBytes 10 0xc9803c15800780018080,
    .ofNat 0xb0366eca09f5c3ba1d914129a230ac6ecb0681158a5c4e4d463160e10bcfadf1)]
  [((.ofNat 0xb0366eca09f5c3ba1d914129a230ac6ecb0681158a5c4e4d463160e10bcfadf1,
      toBeBytes 32 0x4869f7941d77b79e2fcf67c67f6da10d8365ba33f503e93a059bbc593c94ee18 ++
        toBeBytes 32 0x6e83e8a447a0da01c5ad8d8fe4cacde45c4215c25b11be512aa37e1e41079c5b, 1),
    samplePublicKey)]

/-- The first block of the sample, with a creation in place of the transfer. -/
def creationBlock : Block :=
  sampleBlock 0xac323fb52305d0e53e6ecd545dc3d05abf57d846260129534c1966d2deeef619 21 1
    [{ transaction := .legacy 0 60 21 none 7 []
       v := 38
       r := .ofNat 0x4869f7941d77b79e2fcf67c67f6da10d8365ba33f503e93a059bbc593c94ee18
       s := .ofNat 0x6e83e8a447a0da01c5ad8d8fe4cacde45c4215c25b11be512aa37e1e41079c5b }]

/-- A block from the network with a signed creation stops the processor. -/
theorem processBlock_creation : ∃ item processor, fromRlpItem item = .ok creationBlock ∧
    Reach creationHost sampleGenesis processor ∧ processor.chainHead.number.toNat < 2 ^ 64 - 1 ∧
    BlockProcessor.processBlock creationHost creationBlock processor = .panic := by
  refine ⟨toRlpItem creationBlock, sampleGenesis.processor creationHost, RlpLawful.roundTrip creationBlock,
    .boot (sampleGenesis.boot_eq creationHost), by decide, ?_⟩
  exact Outcome.isPanic_iff.mp (by decide +kernel)

end Sample

end MiniEthNode
