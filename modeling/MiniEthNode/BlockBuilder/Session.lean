import MiniEthNode.BlockBuilder.Model
import MiniEthNode.Execution.Affordable
import MiniEthNode.Processor.Replay
import MiniEthNode.Processor.Totality

namespace MiniEthNode
open Rust

/-- `recover_sender` inverts `sign` for the keys and the chain. -/
def SignaturesRecover (host : Host) (signer : Signer) (keys : List (FixedBytes 32)) (chainId : U64) : Prop :=
  ∀ key ∈ keys, ∃ address, ∀ transaction signed, sign host signer transaction key.bytes chainId = .ok signed →
    recoverSender host signed chainId = .ok address

/-- The snapshots are of the accounts of a provider. -/
def SnapshotsOf (provider : InMemoryProvider) (snapshots : HashMap Address AccountSnapshot) : Prop :=
  ∀ address snapshot, snapshots.lookup address = some snapshot → ∃ account, provider.getAccount address = .ok account ∧
    snapshot.nonce = account.nonce ∧ snapshot.balance = account.balance

/-- What is asked of the builder in one round. -/
structure Round (host : Host) (signer : Signer) (builder : BlockBuilder) (processor : BlockProcessor)
    (spec : BlockSpec) (snapshots : HashMap Address AccountSnapshot) : Prop where
  sameHead : builder.currentHead = (processor.chainHead.number, processor.chainHead.hash)
  taken : SnapshotsOf processor.pipeline.provider snapshots
  distinct : spec.transactions.Pairwise fun first second => ∀ sender sender',
    builder.senderOf host signer first = .ok sender → builder.senderOf host signer second = .ok sender' →
      sender ≠ sender'
  few : spec.transactions.length ≤ 100
  gas : (spec.transactions.map fun spec => spec.gasLimit.toNat).sum ≤ builder.genesisGasLimit.toNat
  nonces : ∀ transaction ∈ spec.transactions, ∀ sender, builder.senderOf host signer transaction = .ok sender →
    nonceOf processor.pipeline.provider.state sender < 2 ^ 64 - 1

/-- A builder and a node with the same genesis, after any number of rounds. A round that the builder
refuses is not delivered. -/
inductive Session (host : Host) (signer : Signer) (genesis : Genesis) (keys : List (FixedBytes 32)) :
    BlockBuilder → BlockProcessor → Prop
  | start {builder processor} :
      BlockBuilder.new genesis.chainId (headerHash host genesis.block.header) genesis.block.header.timestamp
        genesis.block.header.gasLimit keys = .ok builder →
      genesis.boot host = .ok processor → Session host signer genesis keys builder processor
  | setHead {builder builder' processor number hash} : Session host signer genesis keys builder processor →
      BlockBuilder.setCurrentHead number hash builder = .ok ((), builder') →
      Session host signer genesis keys builder' processor
  | refused {builder builder' processor spec snapshots error} : Session host signer genesis keys builder processor →
      BlockBuilder.generateBlock host signer spec snapshots builder = .err (error, builder') →
      Session host signer genesis keys builder' processor
  | built {builder builder' processor processor' spec snapshots block peerId delivery} :
      Session host signer genesis keys builder processor → Round host signer builder processor spec snapshots →
      BlockBuilder.generateBlock host signer spec snapshots builder = .ok (block, builder') →
      deliver host processor ⟨block, peerId⟩ = some (delivery, processor') →
      Session host signer genesis keys builder' processor'

/-- What the rounds keep. -/
structure InStep (host : Host) (genesis : Genesis) (keys : List (FixedBytes 32)) (builder : BlockBuilder)
    (processor : BlockProcessor) : Prop where
  reach : Reach host genesis processor
  idle : processor.pendingMap = ∅
  timed : ∀ block, processor.pipeline.provider.blocks.lookup processor.chainHead.number = some block →
    block.header.timestamp.toNat = genesis.block.header.timestamp.toNat + 12 * processor.chainHead.number.toNat
  keys : builder.state.signingKeys = keys
  chainId : builder.state.chainId = genesis.chainId
  genesisTimestamp : builder.state.genesisTimestamp = genesis.block.header.timestamp

theorem InStep.withHead {host : Host} {genesis : Genesis} {keys : List (FixedBytes 32)} {builder : BlockBuilder}
    {processor : BlockProcessor} (inStep : InStep host genesis keys builder processor) (number : U64) (hash : B256)
    (timestamp : U64) : InStep host genesis keys (builder.withHead number hash timestamp) processor :=
  ⟨inStep.reach, inStep.idle, inStep.timed, inStep.keys, inStep.chainId, inStep.genesisTimestamp⟩

section Transactions
variable {host : Host} {signer : Signer} {builder : BlockBuilder} {snapshots : HashMap Address AccountSnapshot}

/-- A transaction that was built is recovered as sent by its sender, who can pay for it. -/
theorem buildSignedTransaction_payable {provider : InMemoryProvider} {spec : TransactionSpec}
    {signed : SignedTransaction} (baseFeePerGas : U128)
    (recovers : SignaturesRecover host signer builder.state.signingKeys builder.state.chainId)
    (taken : SnapshotsOf provider snapshots)
    (nonces : ∀ sender, builder.senderOf host signer spec = .ok sender → nonceOf provider.state sender < 2 ^ 64 - 1)
    (ran : builder.buildSignedTransaction host signer spec snapshots = .ok signed) :
    ∃ sender, builder.senderOf host signer spec = .ok sender ∧
      recoverSender host signed builder.state.chainId = .ok sender ∧
      signed.transaction.gasLimit = spec.gasLimit ∧ Payable baseFeePerGas provider.state (signed, sender) := by
  obtain ⟨key, sender, snapshot, cost, built⟩ := BlockBuilder.buildSignedTransaction_ok ran
  obtain ⟨address, inverts⟩ := recovers key (List.mem_of_getElem? built.known)
  obtain ⟨dummy, signedDummy, recovered⟩ := Outcome.bind_eq_ok.mp built.recovered
  have same : sender = address := by
    have first := Outcome.mapErr_eq_ok.mp recovered
    rw [inverts _ _ (Outcome.mapErr_eq_ok.mp signedDummy)] at first
    cases first
    rfl
  subst same
  obtain ⟨_, _, _, _, _, _, _, _, _, transaction⟩ := sign_ok built.signed
  obtain ⟨account, present, nonce, balance⟩ := taken sender snapshot built.found
  have known : builder.senderOf host signer spec = .ok sender :=
    Outcome.bind_eq_ok.mpr ⟨key, Outcome.okOr_eq_ok.mpr built.known, built.recovered⟩
  have present : provider.state.lookup sender = some account := Outcome.okOr_eq_ok.mp present
  have below := nonces sender known
  rw [nonceOf, present, Option.map_some, Option.getD_some] at below
  have bounded := built.bounded
  rw [← transaction] at bounded
  refine ⟨sender, known, inverts _ _ built.signed, by rw [transaction]; rfl, ⟨account, cost, ?_⟩, ?_, ?_⟩
  · refine ⟨present, ?_, by omega, bounded, ?_⟩
    · rw [transaction]
      exact nonce
    · rw [← balance]
      exact built.covered
  · rw [transaction]
    exact ⟨_, rfl⟩
  · rw [transaction]
    exact ⟨_, rfl⟩

/-- The transactions of a block that was built, each with its sender. -/
theorem buildTransactions_payable {provider : InMemoryProvider} {specs : List TransactionSpec}
    {transactions : List SignedTransaction} (baseFeePerGas : U128)
    (recovers : SignaturesRecover host signer builder.state.signingKeys builder.state.chainId)
    (taken : SnapshotsOf provider snapshots)
    (nonces : ∀ spec ∈ specs, ∀ sender, builder.senderOf host signer spec = .ok sender →
      nonceOf provider.state sender < 2 ^ 64 - 1)
    (each : List.Forall₂ (fun spec signed => builder.buildSignedTransaction host signer spec snapshots = .ok signed)
      specs transactions) :
    ∃ senders, specs.map (builder.senderOf host signer) = senders.map .ok ∧
      List.Forall₂ (fun signed sender => recoverSender host signed builder.state.chainId = .ok sender)
        transactions senders ∧
      (transactions.zip senders).map (fun entry => entry.1.transaction.gasLimit.toNat) =
        specs.map (fun spec => spec.gasLimit.toNat) ∧
      ∀ entry ∈ transactions.zip senders, Payable baseFeePerGas provider.state entry := by
  induction each with
  | nil => exact ⟨[], rfl, .nil, rfl, by simp⟩
  | @cons spec signed specs transactions first _ ih =>
    obtain ⟨sender, known, recovered, gasLimit, payable⟩ := buildSignedTransaction_payable baseFeePerGas recovers taken
      (nonces spec List.mem_cons_self) first
    obtain ⟨senders, knownRest, recoveredRest, gasLimits, payableRest⟩ := ih fun spec member =>
      nonces spec (List.mem_cons_of_mem _ member)
    refine ⟨sender :: senders, ?_, .cons recovered recoveredRest, ?_, ?_⟩
    · rw [List.map_cons, List.map_cons, known, knownRest]
    · rw [List.zip_cons_cons, List.map_cons, List.map_cons, gasLimits, gasLimit]
    · rw [List.zip_cons_cons]
      exact List.forall_mem_cons.mpr ⟨payable, payableRest⟩

theorem senders_nodup {specs : List TransactionSpec} {senders : List Address}
    (known : specs.map (builder.senderOf host signer) = senders.map .ok)
    (distinct : specs.Pairwise fun first second => ∀ sender sender',
      builder.senderOf host signer first = .ok sender → builder.senderOf host signer second = .ok sender' →
        sender ≠ sender') : senders.Nodup := by
  have apart : (specs.map (builder.senderOf host signer)).Pairwise fun first second => ∀ sender sender',
      first = .ok sender → second = .ok sender' → sender ≠ sender' := List.pairwise_map.mpr distinct
  rw [known, List.pairwise_map] at apart
  exact apart.imp fun different => different _ _ rfl rfl

end Transactions

section Rounds
variable {host : Host} {signer : Signer} {genesis : Genesis} {keys : List (FixedBytes 32)} {builder : BlockBuilder}
  {processor : BlockProcessor}

/-- A block that was built in a round passes everything that the node checks. -/
theorem InStep.commit {spec : BlockSpec} {snapshots : HashMap Address AccountSnapshot} {block : Block}
    {builder' : BlockBuilder} (recovers : SignaturesRecover host signer keys genesis.chainId)
    (supply : totalBalance genesis.accounts < 2 ^ 128)
    (difficulty : host.overflowChecks = true → genesis.totalDifficulty.toNat ≤ 2 ^ 64)
    (inStep : InStep host genesis keys builder processor) (round : Round host signer builder processor spec snapshots)
    (generated : BlockBuilder.generateBlock host signer spec snapshots builder = .ok (block, builder')) :
    ∃ parent senders output state totalDifficulty,
      Commit (genesis.rules host) processor.ledger block parent senders output state totalDifficulty ∧
      spec.transactions.map (builder.senderOf host signer) = senders.map .ok ∧ senders.Nodup := by
  obtain ⟨each, parentHash, gasLimit, gasUsed, number, timestamp, -⟩ := BlockBuilder.generateBlock_ok generated
  obtain ⟨sameNumber, sameHash⟩ := Prod.mk.inj round.sameHead
  obtain ⟨parent, found, stored, parentNumber, hashed⟩ := inStep.reach.head_found
  have timestamp := BlockBuilder.timestampAt_ok timestamp
  have parentTimestamp := inStep.timed parent stored
  rw [inStep.genesisTimestamp] at timestamp
  rw [sameNumber] at number
  have bound := block.header.timestamp.isLt
  rw [← inStep.keys, ← inStep.chainId] at recovers
  obtain ⟨senders, known, recovered, gasLimits, payable⟩ :=
    buildTransactions_payable block.header.baseFeePerGas recovers round.taken round.nonces each
  have nodup := senders_nodup known round.distinct
  have gas := round.gas
  rw [inStep.chainId] at recovered
  have below : processor.chainHead.number.toNat < 2 ^ 64 - 1 := by omega
  have current : totalBalance processor.ledger.provider.state < 2 ^ 128 := by
    have conserved : _ = totalBalance genesis.accounts := inStep.reach.holds.2.supply
    omega
  obtain ⟨output, state, executed⟩ : ∃ output state,
      executeOn host ⟨block, senders⟩ processor.ledger.provider.state = .ok (output, state) := by
    refine executeOn_payable host ?_ payable current ?_
    · rw [List.map_snd_zip recovered.length_eq.ge]
      exact nodup
    · rw [gasLimits]
      exact gas.trans_lt builder.genesisGasLimit.isLt
  refine ⟨parent, senders, output, state, _, ⟨?_, ?_, parentNumber, ?_, ?_, ?_, ?_, recoverSenders_of recovered,
    executed, add_of_fits ?_⟩, known, nodup⟩
  · rw [parentHash, sameHash]
    exact found
  · rw [parentNumber]
    exact number
  · rw [BitVec.lt_def]
    omega
  · rw [parentHash, sameHash]
    exact hashed
  · rw [gasLimit, BitVec.le_def, gasUsed]
    exact gas
  · rw [← each.length_eq]
    exact round.few
  · intro checks
    rw [BitVec.toNat_setWidth_of_le (by decide)]
    exact inStep.reach.difficulty_fits below (difficulty checks) block.header.gasUsed

/-- The node takes the block at once, and the two are in step again. -/
theorem InStep.round {spec : BlockSpec} {snapshots : HashMap Address AccountSnapshot} {block : Block}
    {builder' : BlockBuilder} (recovers : SignaturesRecover host signer keys genesis.chainId)
    (supply : totalBalance genesis.accounts < 2 ^ 128)
    (difficulty : host.overflowChecks = true → genesis.totalDifficulty.toNat ≤ 2 ^ 64)
    (inStep : InStep host genesis keys builder processor) (round : Round host signer builder processor spec snapshots)
    (generated : BlockBuilder.generateBlock host signer spec snapshots builder = .ok (block, builder'))
    (peerId : PeerId) :
    ∃ processor' parent senders output state totalDifficulty,
      deliver host processor ⟨block, peerId⟩ = some (.drained [block], processor') ∧
      InStep host genesis keys builder' processor' ∧
      processor'.ledger = processor.ledger.extend host block state totalDifficulty ∧
      Commit (genesis.rules host) processor.ledger block parent senders output state totalDifficulty ∧
      spec.transactions.map (builder.senderOf host signer) = senders.map .ok ∧ senders.Nodup := by
  obtain ⟨parent, senders, output, state, totalDifficulty, commit, known, nodup⟩ :=
    inStep.commit recovers supply difficulty round generated
  obtain ⟨-, -, -, -, -, timestamp, rfl⟩ := BlockBuilder.generateBlock_ok generated
  have timestamp := BlockBuilder.timestampAt_ok timestamp
  have bound := block.header.timestamp.isLt
  have room : block.header.number.toNat + 1 < 2 ^ 64 := by omega
  have received : processor.replica.receive (genesis.rules host) ⟨block, peerId⟩ =
      some (.drained [block], ⟨processor.ledger.extend host block state totalDifficulty, ∅⟩) :=
    Replica.receive_next inStep.idle commit.judged room
  rw [inStep.reach.receive_eq] at received
  obtain ⟨⟨delivery, processor'⟩, delivered, same⟩ := Option.map_eq_some_iff.mp received
  obtain ⟨rfl, same⟩ := Prod.mk.inj same
  have ledger : processor'.ledger = processor.ledger.extend host block state totalDifficulty :=
    congrArg Replica.ledger same
  refine ⟨processor', parent, senders, output, state, totalDifficulty, delivered, InStep.withHead ?_ _ _ _, ledger,
    commit, known, nodup⟩
  refine ⟨inStep.reach.next delivered, congrArg Replica.pending same, fun last stored => ?_, inStep.keys,
    inStep.chainId, inStep.genesisTimestamp⟩
  have number : processor'.chainHead.number = block.header.number := congrArg (·.chainHead.number) ledger
  have blocks : processor'.pipeline.provider.blocks =
      processor.pipeline.provider.blocks.insert block.header.number block := congrArg (·.provider.blocks) ledger
  rw [number, blocks, Finmap.lookup_insert] at stored
  cases stored
  rw [number, ← inStep.genesisTimestamp]
  exact timestamp

theorem Session.inStep (recovers : SignaturesRecover host signer keys genesis.chainId)
    (supply : totalBalance genesis.accounts < 2 ^ 128)
    (difficulty : host.overflowChecks = true → genesis.totalDifficulty.toNat ≤ 2 ^ 64)
    (session : Session host signer genesis keys builder processor) : InStep host genesis keys builder processor := by
  induction session with
  | start made booted =>
    cases made
    have reach := Reach.boot booted
    rw [genesis.boot_eq] at booted
    cases booted
    refine ⟨reach, rfl, fun block stored => ?_, rfl, rfl, rfl⟩
    obtain ⟨holds, _⟩ := reach.holds
    have first := (holds.stored 0).symm.trans stored
    cases first
    rfl
  | @setHead builder builder' processor number hash _ moved ih =>
    obtain ⟨timestamp, _, _, moved⟩ := Exec.bind_eq_ok.mp moved
    obtain ⟨_, rfl⟩ := Exec.read_eq_ok.mp ‹_›
    cases moved
    exact ih.withHead _ _ _
  | refused _ failed ih =>
    rw [BlockBuilder.generateBlock_err failed]
    exact ih
  | @built builder builder' processor processor' spec snapshots block peerId delivery _ round generated delivered ih =>
    obtain ⟨taken, _, _, _, _, _, delivered', inStep, _⟩ := ih.round recovers supply difficulty round generated peerId
    rw [delivered] at delivered'
    cases delivered'
    exact inStep

/-- The node commits every block that the builder makes in a round, and the two have the same head again.
A round that the builder refuses leaves the builder as it was. -/
theorem builder_and_node_agree (recovers : SignaturesRecover host signer keys genesis.chainId)
    (supply : totalBalance genesis.accounts ≤ 2 ^ 128 - 1)
    (difficulty : host.overflowChecks = true → genesis.totalDifficulty.toNat ≤ 2 ^ 64)
    (session : Session host signer genesis keys builder processor) (spec : BlockSpec)
    (snapshots : HashMap Address AccountSnapshot) :
    (∀ error builder', BlockBuilder.generateBlock host signer spec snapshots builder = .err (error, builder') →
      builder' = builder) ∧
    (Round host signer builder processor spec snapshots → ∀ block builder',
      BlockBuilder.generateBlock host signer spec snapshots builder = .ok (block, builder') →
      (∃ committed, BlockProcessor.processBlock host block processor = .ok ((), committed)) ∧
      ∀ peerId, ∃ processor', deliver host processor ⟨block, peerId⟩ = some (.drained [block], processor') ∧
        processor'.blockList = processor.blockList ++ [block] ∧
        (processor'.chainHead.number, processor'.chainHead.hash) = builder'.currentHead ∧
        ∀ transaction ∈ spec.transactions, ∃ sender, builder.senderOf host signer transaction = .ok sender ∧
          nonceOf processor'.pipeline.provider.state sender = nonceOf processor.pipeline.provider.state sender + 1) := by
  have supply : totalBalance genesis.accounts < 2 ^ 128 := by omega
  have inStep := session.inStep recovers supply difficulty
  refine ⟨fun error builder' => BlockBuilder.generateBlock_err, fun round block builder' generated => ⟨?_, ?_⟩⟩
  · obtain ⟨parent, senders, output, state, totalDifficulty, commit, _⟩ :=
      inStep.commit recovers supply difficulty round generated
    obtain ⟨closed, rules⟩ := inStep.reach.settled
    rw [BlockProcessor.processBlock_eq host block closed, rules, commit.judged]
    exact ⟨_, rfl⟩
  · intro peerId
    obtain ⟨processor', parent, senders, output, state, totalDifficulty, delivered, _, ledger, commit, known, nodup⟩ :=
      inStep.round recovers supply difficulty round generated peerId
    obtain ⟨-, -, -, -, -, -, rfl⟩ := BlockBuilder.generateBlock_ok generated
    refine ⟨processor', delivered, ?_, ?_, fun transaction member => ?_⟩
    · have before : processor.ledger.Holds (genesis.rules host).host _ := inStep.reach.holds.1
      have after := before.commit commit.judged
      change Ledger.Holds host (processor.ledger.extend host block state totalDifficulty) _ at after
      rw [← ledger] at after
      rw [before.blockList, after.blockList]
    · have head : processor'.chainHead = ⟨block.header.number, headerHash host block.header, totalDifficulty⟩ :=
        congrArg (·.chainHead) ledger
      rw [head]
      rfl
    · obtain ⟨sender, inside, same⟩ : ∃ sender ∈ senders, Outcome.ok sender = builder.senderOf host signer transaction :=
        List.mem_map.mp (known ▸ List.mem_map_of_mem member)
      have nonces := commit.transfers.nonces sender
      have accounts : processor'.pipeline.provider.state = state := congrArg (·.provider.state) ledger
      rw [List.map_snd_zip (recoverSenders_ok commit.recovered).length_eq.ge, nodup.count, if_pos inside] at nonces
      refine ⟨sender, same.symm, ?_⟩
      rw [accounts]
      exact nonces

end Rounds

section Sample

def builderKey : FixedBytes 32 := .ofNat 0x4c0c4d146c46ed91f6a9350946a3699eb1fbc19c91c810e6b6a78b0ca606656f

/-- What the key signs: the transaction that is thrown away and a transfer of 7. -/
def builderSignatures : List ((FixedBytes 32 × B256) × (FixedBytes 64 × UInt8)) := [
  ((builderKey, .ofNat 0x3bc83319311b7b9600d622baa0309f2e70baa3b8e0359ab7f987a2deda1a8d27),
    (.ofNat (0x63569f787a9ea4b50df7c4d5c22ebf1b26b8586db48d07d2a45fcce36b4ed521 <<< 256 +
      0x178b5e42a18c41a01687d54b900d2b864184c201b82a0326a6e5eb7e271e7611), 0)),
  ((builderKey, .ofNat 0x4271ea9c9afa4822650ef011ea115fd593b48d1429dc867606742d3336ade2c4),
    (.ofNat (0xd27bc985ca34ee5da0513506ddae23dd401188fb6a2b80a7653ff63cd92eb234 <<< 256 +
      0x7d9e90eae4a8aa8d68809c53e50b0690ff47bad5330d3655ecd1c5c1bfc3bd26), 1))]

def builderSigner : Signer := .ofGraph builderSignatures

def builderHost : Host := sampleHost.extend [
  (toBeBytes 40 0xf87ca0ac323fb52305d0e53e6ecd545dc3d05abf57d846260129534c1966d2deeef6199400000000 ++
      toBeBytes 40 0x00000000000000000000000000000000a00000000000000000000000000000000000000000000000 ++
      toBeBytes 40 0x000000000000000000a0000000000000000000000000000000000000000000000000000000000000 ++
      toBeBytes 6 0x000064150c01,
    .ofNat 0x8b6ea91d712d098b9b689b5a0d57f5e9093bfdcfa07c7f5ebebdd21e533bf326),
  (toBeBytes 16 0xcf80843b9aca00825208808080018080,
    .ofNat 0x3bc83319311b7b9600d622baa0309f2e70baa3b8e0359ab7f987a2deda1a8d27),
  (toBeBytes 34 0xe180843b9aca00159422222222222222222222222222222222222222220780018080,
    .ofNat 0x4271ea9c9afa4822650ef011ea115fd593b48d1429dc867606742d3336ade2c4)]
  (builderSignatures.map fun ((_, prehash), signature, recoveryId) =>
    ((prehash, signature.bytes, recoveryId), samplePublicKey))

/-- The genesis of the sample, with enough for the price of the builder. -/
def builderGenesis : Genesis := { sampleGenesis with
  accounts := (∅ : HashMap Address Account).insert sampleSender { Account.default with balance := 1000000000000 } }

def sampleBuilder : BlockBuilder :=
  ⟨⟨[builderKey], 0, headerHash builderHost builderGenesis.block.header, 0, 0, 1⟩, 100⟩

def sampleSpec : BlockSpec := ⟨[⟨0, .ofNat 0x2222222222222222222222222222222222222222, 7, 21⟩]⟩

def sampleSnapshots : HashMap Address AccountSnapshot :=
  (∅ : HashMap Address AccountSnapshot).insert sampleSender ⟨sampleSender, 0, 1000000000000⟩

theorem builderSigner_inverts : builderSigner.Inverts builderHost builderKey samplePublicKey :=
  Signer.ofGraph_inverts (by decide +kernel)

theorem sampleBuilder_recovers : SignaturesRecover builderHost builderSigner [builderKey] builderGenesis.chainId := by
  intro key member
  rw [List.mem_singleton.mp member]
  exact ⟨addressOf builderHost samplePublicKey, fun _ _ => recoverSender_sign builderSigner_inverts (by decide)⟩

theorem sampleBuilder_round :
    Round builderHost builderSigner sampleBuilder (builderGenesis.processor builderHost) sampleSpec sampleSnapshots := by
  refine ⟨rfl, fun address snapshot found => ?_, List.pairwise_singleton _ _, by decide, by decide, ?_⟩
  · unfold sampleSnapshots at found
    rw [HashMap.lookup_insert_ite] at found
    split at found
    · rename_i same
      cases found
      subst same
      exact ⟨{ Account.default with balance := 1000000000000 }, Outcome.okOr_eq_ok.mpr (Finmap.lookup_insert _), rfl, rfl⟩
    · cases found
  · intro transaction member sender known
    rw [List.mem_singleton.mp member] at known
    have same : Outcome.ok sampleSender = sampleBuilder.senderOf builderHost builderSigner
      ⟨0, .ofNat 0x2222222222222222222222222222222222222222, 7, 21⟩ := by decide +kernel
    cases same.trans known
    decide +kernel

/-- One round with one transfer, from the start. -/
theorem builder_and_node_agree_transfer : ∃ block builder' processor',
    BlockBuilder.generateBlock builderHost builderSigner sampleSpec sampleSnapshots sampleBuilder =
      .ok (block, builder') ∧
    deliver builderHost (builderGenesis.processor builderHost) ⟨block, ⟨0⟩⟩ = some (.drained [block], processor') ∧
    (processor'.chainHead.number, processor'.chainHead.hash) = builder'.currentHead := by
  have session : Session builderHost builderSigner builderGenesis [builderKey] sampleBuilder
      (builderGenesis.processor builderHost) := .start rfl (builderGenesis.boot_eq builderHost)
  have generates : (BlockBuilder.generateBlock builderHost builderSigner sampleSpec sampleSnapshots
      sampleBuilder).toOption.isSome = true := by decide +kernel
  obtain ⟨⟨block, builder'⟩, generated⟩ := Option.isSome_iff_exists.mp generates
  rw [Outcome.toOption_eq_some] at generated
  obtain ⟨_, deliveries⟩ := (builder_and_node_agree sampleBuilder_recovers (by decide +kernel) (by decide) session
    sampleSpec sampleSnapshots).2 sampleBuilder_round block builder' generated
  obtain ⟨processor', delivered, _, sameHead, _⟩ := deliveries ⟨0⟩
  exact ⟨block, builder', processor', generated, delivered, sameHead⟩

end Sample

end MiniEthNode
