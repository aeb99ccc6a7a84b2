import MiniEthNode.Processor.Run

namespace MiniEthNode
open Rust

/-- The stored blocks from a number on. -/
def InMemoryProvider.blocksFrom (provider : InMemoryProvider) (first count : Nat) : List Block :=
  (List.range' first count).filterMap fun i => provider.blocks.lookup (BitVec.ofNat 64 i)

/-- The blocks `0..=chain_head.number`. -/
def BlockProcessor.blockList (processor : BlockProcessor) : List Block :=
  processor.pipeline.provider.blocksFrom 0 (processor.chainHead.number.toNat + 1)

/-- The blocks `1..=chain_head.number`. -/
def BlockProcessor.committedBlocks (processor : BlockProcessor) : List Block :=
  processor.pipeline.provider.blocksFrom 1 processor.chainHead.number.toNat

def gasTotal (blocks : List Block) : Nat := (blocks.map fun block => block.header.gasUsed.toNat).sum

/-- What every block has in relation to the one before it. -/
structure Follows (host : Host) (parent block : Block) : Prop where
  linked : headerHash host parent.header = block.header.parentHash
  later : parent.header.timestamp < block.header.timestamp
  gasWithin : block.header.gasUsed ≤ block.header.gasLimit

/-- A ledger stores exactly the blocks of a chain, each under its number, and its head is the last one. -/
structure Ledger.Holds (host : Host) (ledger : Ledger) (chain : List Block) : Prop where
  stored : ∀ number, ledger.provider.blocks.lookup number = chain[number.toNat]?
  height : chain.length = ledger.chainHead.number.toNat + 1
  numbered : ∀ (i : Nat) (block : Block), chain[i]? = some block → block.header.number.toNat = i
  follows : ∀ (i : Nat) (parent block : Block), chain[i]? = some parent → chain[i + 1]? = some block → Follows host parent block
  tip : ∀ block : Block, chain[ledger.chainHead.number.toNat]? = some block →
    headerHash host block.header = ledger.chainHead.hash
  shared : ledger.sharedHead = ledger.chainHead

theorem Genesis.holds (host : Host) (genesis : Genesis) : (genesis.ledger host).Holds host [genesis.block] := by
  refine ⟨fun number => ?_, rfl, fun i block found => ?_, fun i parent block _ found => ?_, fun block found => ?_, rfl⟩
  · have stored : (genesis.ledger host).provider.blocks = (∅ : HashMap U64 Block).insert 0 genesis.block := by
      rw [← genesis.number]
      rfl
    rw [stored, HashMap.lookup_insert_ite]
    split
    · rename_i zero
      subst zero
      rfl
    · rename_i other
      have positive : 1 ≤ number.toNat := by bv_omega
      rw [List.getElem?_eq_none (by simpa using positive)]
      rfl
  · rcases i with _ | i
    · cases found
      rw [genesis.number]
      rfl
    · simp at found
  · simp at found
  · cases found
    rfl

/-- The parent of a block that is committed is the last block of the chain. -/
theorem Ledger.Holds.parent {rules : Rules} {ledger : Ledger} {chain : List Block} {block parent : Block}
    {senders : List Address} {output : ExecutionOutput} {state : HashMap Address Account} {totalDifficulty : U128}
    (holds : ledger.Holds rules.host chain)
    (commit : Commit rules ledger block parent senders output state totalDifficulty) :
    chain[ledger.chainHead.number.toNat]? = some parent := by
  obtain ⟨number, _, found⟩ := Outcome.bind_eq_ok.mp commit.parentFound
  have stored := holds.stored number
  rw [Outcome.okOr_eq_ok.mp found] at stored
  have same := holds.numbered _ _ stored.symm
  rw [← commit.onHead, same, ← stored]

/-- The block found for a hash is one of the chain, so its number is at most that of the head. -/
theorem Ledger.Holds.parent_number_le {host : Host} {ledger : Ledger} {chain : List Block}
    (holds : ledger.Holds host chain) {hash : B256} {parent : Block}
    (found : ledger.provider.getBlockByHash hash = .ok parent) :
    parent.header.number.toNat ≤ ledger.chainHead.number.toNat := by
  obtain ⟨number, _, found⟩ := Outcome.bind_eq_ok.mp found
  have stored := holds.stored number
  rw [Outcome.okOr_eq_ok.mp found] at stored
  have same := holds.numbered _ _ stored.symm
  have height := holds.height
  obtain ⟨inside, _⟩ := List.getElem?_eq_some_iff.mp stored.symm
  omega

theorem Ledger.Holds.commit {rules : Rules} {ledger ledger' : Ledger} {chain : List Block} {block : Block}
    {output : ExecutionOutput} (holds : ledger.Holds rules.host chain)
    (committed : judge rules ledger block = .ok (output, ledger')) :
    ledger'.Holds rules.host (chain ++ [block]) := by
  obtain ⟨parent, senders, state, totalDifficulty, commit, rfl⟩ := judge_ok committed
  have last := holds.parent commit
  have height := holds.height
  have number : block.header.number.toNat = chain.length := by
    rw [height, ← commit.follows, commit.onHead]
  refine ⟨fun other => ?_, ?_, fun i found present => ?_, fun i before after first second => ?_, fun top found => ?_, rfl⟩
  · have stored : (ledger.extend rules.host block state totalDifficulty).provider.blocks =
        ledger.provider.blocks.insert block.header.number block := rfl
    rw [stored, HashMap.lookup_insert_ite, holds.stored, List.getElem?_append]
    split
    · rename_i same
      rw [same, number]
      simp
    · rename_i different
      have apart : other.toNat ≠ chain.length := fun same => different (BitVec.eq_of_toNat_eq (same.trans number.symm))
      split
      · rfl
      · rw [List.getElem?_eq_none (by omega), List.getElem?_eq_none (by simp; omega)]
  · rw [List.length_append, List.length_singleton, ← number]
    rfl
  · rcases getElem?_concat.mp present with old | ⟨rfl, rfl⟩
    · exact holds.numbered i found old
    · exact number
  · rcases getElem?_concat.mp second with old | ⟨top, rfl⟩
    · rcases getElem?_concat.mp first with older | ⟨rfl, _⟩
      · exact holds.follows i before after older old
      · rw [List.getElem?_eq_none (by omega)] at old
        cases old
    · rcases getElem?_concat.mp first with older | ⟨rfl, _⟩
      · have same : i = ledger.chainHead.number.toNat := by omega
        rw [same, last] at older
        cases older
        exact ⟨commit.linked, commit.later, commit.gasWithin⟩
      · omega
  · have here : (chain ++ [block])[block.header.number.toNat]? = some block := by rw [number]; simp
    have same : some block = some top := here.symm.trans found
    cases same
    rfl

theorem Ledger.Holds.committed {rules : Rules} {before after : Ledger} {chain blocks : List Block}
    (committed : Committed rules before blocks after) (holds : before.Holds rules.host chain) :
    after.Holds rules.host (chain ++ blocks) := by
  induction committed generalizing chain with
  | nil => simpa using holds
  | cons step _ ih => simpa using ih (holds.commit step)

/-- The difficulty of the head is counted in gas. -/
theorem Committed.difficulty {rules : Rules} {before after : Ledger} {blocks : List Block}
    (committed : Committed rules before blocks after) :
    after.chainHead.totalDifficulty.toNat =
        (before.chainHead.totalDifficulty.toNat + gasTotal blocks) % 2 ^ 128 ∧
      (rules.host.overflowChecks = true →
        after.chainHead.totalDifficulty.toNat = before.chainHead.totalDifficulty.toNat + gasTotal blocks) := by
  induction committed with
  | @nil ledger => exact ⟨(Nat.mod_eq_of_lt ledger.chainHead.totalDifficulty.isLt).symm, fun _ => rfl⟩
  | @cons before between after block output rest step _ ih =>
    obtain ⟨parent, senders, state, totalDifficulty, commit, rfl⟩ := judge_ok step
    have total : gasTotal (block :: rest) = block.header.gasUsed.toNat + gasTotal rest := by
      simp [gasTotal]
    have head : (before.extend rules.host block state totalDifficulty).chainHead.totalDifficulty =
      totalDifficulty := rfl
    rw [head] at ih
    constructor
    · have sum := add_eq_ok commit.difficulty
      rw [ih.1, sum, BitVec.toNat_add, BitVec.toNat_setWidth_of_le (by decide), total]
      omega
    · intro checks
      have sum := commit.difficulty
      rw [checks] at sum
      have exact := add_checked_eq_ok sum
      rw [BitVec.toNat_setWidth_of_le (by decide)] at exact
      rw [ih.2 checks, total]
      omega

theorem InMemoryProvider.blocksFrom_eq {provider : InMemoryProvider} {chain : List Block}
    (stored : ∀ number, provider.blocks.lookup number = chain[number.toNat]?) (bound : chain.length ≤ 2 ^ 64)
    {first count : Nat} (whole : first + count = chain.length) :
    provider.blocksFrom first count = chain.drop first := by
  induction count generalizing first with
  | zero =>
    rw [List.drop_eq_nil_of_le (by omega)]
    rfl
  | succ count ih =>
    have inside : first < chain.length := by omega
    have here : provider.blocks.lookup (BitVec.ofNat 64 first) = some chain[first] := by
      rw [stored, BitVec.toNat_ofNat, Nat.mod_eq_of_lt (by omega), List.getElem?_eq_getElem inside]
    have whole' : first + 1 + count = chain.length := by omega
    have rest := ih whole'
    unfold InMemoryProvider.blocksFrom at rest ⊢
    rw [List.range'_succ, List.filterMap_cons, here, rest, List.drop_eq_getElem_cons inside]

section Reached
variable {host : Host} {genesis : Genesis} {processor after : BlockProcessor}

theorem Ledger.Holds.blockList {chain : List Block} (holds : processor.ledger.Holds host chain) :
    processor.blockList = chain := by
  have bound := processor.chainHead.number.isLt
  have height : chain.length = processor.chainHead.number.toNat + 1 := holds.height
  exact InMemoryProvider.blocksFrom_eq holds.stored (by omega) (by omega)

theorem Ledger.Holds.committedBlocks {chain : List Block} {first : Block}
    (holds : processor.ledger.Holds host (first :: chain)) : processor.committedBlocks = chain := by
  have bound := processor.chainHead.number.isLt
  have height : chain.length + 1 = processor.chainHead.number.toNat + 1 := holds.height
  exact InMemoryProvider.blocksFrom_eq holds.stored (by rw [List.length_cons]; omega)
    (by rw [List.length_cons]; omega)

/-- The chain of every state is the genesis block followed by the committed blocks. -/
theorem Reach.holds (reach : Reach host genesis processor) :
    processor.ledger.Holds host (genesis.block :: processor.committedBlocks) ∧
      Committed (genesis.rules host) (genesis.ledger host) processor.committedBlocks processor.ledger := by
  obtain ⟨blocks, committed⟩ := reach.committed
  have holds := Ledger.Holds.committed committed (genesis.holds host)
  have same := Ledger.Holds.committedBlocks holds
  rw [same]
  exact ⟨holds, committed⟩

/-- The hash of the head is indexed under its number, whatever other hashes collide with. -/
theorem Committed.indexed {rules : Rules} {before after : Ledger} {blocks : List Block}
    (committed : Committed rules before blocks after)
    (indexed : before.provider.blocksByHash.lookup before.chainHead.hash = some before.chainHead.number) :
    after.provider.blocksByHash.lookup after.chainHead.hash = some after.chainHead.number := by
  induction committed with
  | nil => exact indexed
  | cons step _ ih =>
    obtain ⟨parent, senders, state, totalDifficulty, commit, rfl⟩ := judge_ok step
    exact ih (Finmap.lookup_insert _)

/-- The head is found by its hash. -/
theorem Reach.head_found (reach : Reach host genesis processor) :
    ∃ block, processor.pipeline.provider.getBlockByHash processor.chainHead.hash = .ok block ∧
      processor.pipeline.provider.blocks.lookup processor.chainHead.number = some block ∧
      block.header.number = processor.chainHead.number ∧
      headerHash host block.header = processor.chainHead.hash := by
  obtain ⟨holds, committed⟩ := reach.holds
  have height : processor.committedBlocks.length + 1 = processor.chainHead.number.toNat + 1 := holds.height
  have start : (genesis.ledger host).provider.blocksByHash.lookup (genesis.ledger host).chainHead.hash =
      some (genesis.ledger host).chainHead.number := by
    have stored : (genesis.ledger host).provider.blocksByHash =
        (∅ : HashMap B256 BlockNumber).insert (headerHash host genesis.block.header) 0 := by
      rw [← genesis.number]
      rfl
    rw [stored]
    exact Finmap.lookup_insert _
  have indexed := committed.indexed start
  have stored := holds.stored processor.chainHead.number
  obtain ⟨block, found⟩ : ∃ block, (genesis.block :: processor.committedBlocks)[processor.chainHead.number.toNat]? =
      some block := ⟨_, List.getElem?_eq_getElem (by rw [List.length_cons]; omega)⟩
  have lookup : processor.pipeline.provider.blocks.lookup processor.chainHead.number = some block := stored.trans found
  refine ⟨block, ?_, lookup, BitVec.eq_of_toNat_eq (holds.numbered _ _ found), holds.tip _ found⟩
  exact Outcome.bind_eq_ok.mpr ⟨_, Outcome.okOr_eq_ok.mpr indexed, Outcome.okOr_eq_ok.mpr lookup⟩

theorem gasTotal_le (blocks : List Block) : gasTotal blocks ≤ blocks.length * (2 ^ 64 - 1) := by
  induction blocks with
  | nil => simp [gasTotal]
  | cons block rest ih =>
    have bound := block.header.gasUsed.isLt
    simp only [gasTotal, List.map_cons, List.sum_cons, List.length_cons] at ih ⊢
    omega

/-- The chain that a processor stores, link by link. -/
structure ChainIntegrity (host : Host) (genesis : Genesis) (processor : BlockProcessor) : Prop where
  keys : ∀ number, number ∈ processor.pipeline.provider.blocks ↔ number ≤ processor.chainHead.number
  numbered : ∀ number block, processor.pipeline.provider.blocks.lookup number = some block →
    block.header.number = number
  linked : ∀ number parent block, number < processor.chainHead.number →
    processor.pipeline.provider.blocks.lookup number = some parent →
    processor.pipeline.provider.blocks.lookup (number + 1) = some block →
      hashHeader host parent.header = .ok block.header.parentHash ∧
        parent.header.timestamp < block.header.timestamp ∧ block.header.gasUsed ≤ block.header.gasLimit
  head : ∃ block, processor.pipeline.provider.blocks.lookup processor.chainHead.number = some block ∧
    hashHeader host block.header = .ok processor.chainHead.hash
  difficulty : processor.chainHead.totalDifficulty.toNat =
    (genesis.totalDifficulty.toNat + gasTotal processor.committedBlocks) % 2 ^ 128
  exactDifficulty : host.overflowChecks = true ∨ genesis.totalDifficulty.toNat ≤ 2 ^ 64 →
    processor.chainHead.totalDifficulty.toNat =
      genesis.totalDifficulty.toNat + gasTotal processor.committedBlocks
  shared : processor.sharedHead = processor.chainHead

theorem Ledger.Holds.mem_iff {chain : List Block} (holds : processor.ledger.Holds host chain) (number : U64) :
    number ∈ processor.pipeline.provider.blocks ↔ number ≤ processor.chainHead.number := by
  have height : chain.length = processor.chainHead.number.toNat + 1 := holds.height
  have stored : processor.pipeline.provider.blocks.lookup number = chain[number.toNat]? := holds.stored number
  rw [← Finmap.lookup_isSome, stored, Option.isSome_iff_ne_none, Ne, List.getElem?_eq_none_iff, BitVec.le_def]
  omega

/-- In every state the blocks form one linked chain from the genesis block to the head, and later
states only add to it. -/
theorem chain_integrity (reach : Reach host genesis processor) :
    ChainIntegrity host genesis processor ∧
      ∀ messages deliveries after, deliverAll host processor messages = some (deliveries, after) →
        processor.blockList <+: after.blockList := by
  obtain ⟨holds, committed⟩ := reach.holds
  have height : processor.committedBlocks.length + 1 = processor.chainHead.number.toNat + 1 := holds.height
  obtain ⟨wrapped, checked⟩ := committed.difficulty
  refine ⟨⟨holds.mem_iff, ?_, ?_, ?_, wrapped, ?_, holds.shared⟩, ?_⟩
  · intro number block found
    have stored := holds.stored number
    exact BitVec.eq_of_toNat_eq (holds.numbered _ _ (stored.symm.trans found))
  · intro number parent block below first second
    have next : (number + 1).toNat = number.toNat + 1 := by bv_omega
    have stored := holds.stored (number + 1)
    rw [next] at stored
    have follows := holds.follows _ _ _ ((holds.stored number).symm.trans first) (stored.symm.trans second)
    exact ⟨by rw [hashHeader_eq, follows.linked], follows.later, follows.gasWithin⟩
  · obtain ⟨block, found⟩ := Finmap.mem_iff.mp ((holds.mem_iff processor.chainHead.number).mpr (BitVec.le_refl _))
    have stored := holds.stored processor.chainHead.number
    refine ⟨block, found, ?_⟩
    rw [hashHeader_eq, holds.tip block (stored.symm.trans found)]
    rfl
  · rintro (checks | small)
    · exact checked checks
    · have bound := gasTotal_le processor.committedBlocks
      have below := processor.chainHead.number.isLt
      have product : processor.committedBlocks.length * (2 ^ 64 - 1) ≤ (2 ^ 64 - 1) * (2 ^ 64 - 1) :=
        Nat.mul_le_mul_right _ (by omega)
      change processor.chainHead.totalDifficulty.toNat = _ at wrapped
      rw [wrapped, Nat.mod_eq_of_lt]
      · rfl
      · change genesis.totalDifficulty.toNat + _ < _
        omega
  · intro messages deliveries after ran
    obtain ⟨blocks, more⟩ := reach.run_committed ran
    rw [holds.blockList, (Ledger.Holds.committed more holds).blockList]
    exact ⟨blocks, rfl⟩

end Reached

section Sample

/-- The digests and the one recovered key that two blocks with one signed transfer ask for. -/
def sampleHost : Host := Host.ofGraph [
  (toBeBytes 40 0xf87ca000000000000000000000000000000000000000000000000000000000000000009400000000 ++
      toBeBytes 40 0x00000000000000000000000000000000a00000000000000000000000000000000000000000000000 ++
      toBeBytes 40 0x000000000000000000a0000000000000000000000000000000000000000000000000000000000000 ++
      toBeBytes 6 0x000064808080,
    .ofNat 0xac323fb52305d0e53e6ecd545dc3d05abf57d846260129534c1966d2deeef619),
  (toBeBytes 40 0xf87ca0ac323fb52305d0e53e6ecd545dc3d05abf57d846260129534c1966d2deeef6199400000000 ++
      toBeBytes 40 0x00000000000000000000000000000000a00000000000000000000000000000000000000000000000 ++
      toBeBytes 40 0x000000000000000000a0000000000000000000000000000000000000000000000000000000000000 ++
      toBeBytes 6 0x000064150101,
    .ofNat 0x458472e7909648dff74228f60aa2e3ea4a2528af505c9f3eb857ce06e6ac1586),
  (toBeBytes 40 0xf87ca0458472e7909648dff74228f60aa2e3ea4a2528af505c9f3eb857ce06e6ac15869400000000 ++
      toBeBytes 40 0x00000000000000000000000000000000a00000000000000000000000000000000000000000000000 ++
      toBeBytes 40 0x000000000000000000a0000000000000000000000000000000000000000000000000000000000000 ++
      toBeBytes 6 0x000064800202,
    .ofNat 0xe2f07bc0995d3e694aa53ddc82b3c88519c4c05aeaf8c648655d6f7980e95c10),
  (toBeBytes 30 0xdd803c159422222222222222222222222222222222222222220780018080,
    .ofNat 0xcf2279b357c605d3c5899fafe5e70d30c314e3b46717b10b412644914399cbbb),
  (toBeBytes 40 0xf3a89936d60aac3405e9dcc9df48d7bc24bcc9b450b79e3b8d08eb33a8b373e2d771baf416f9ea88 ++
      toBeBytes 24 0x850f5d5aa5db9b91eb0e93cd7771b890dbd91f1175d5789b,
    .ofNat 0xec41a22882566021d421ca064917b4d08a3a9e2b975ff44088133b9b64230de8),
  (toBeBytes 40 0xf85d803c15942222222222222222222222222222222222222222078025a00e264378c1122586a7fc ++
      toBeBytes 40 0xe96f9c8d3d80b515618cd0c3271463ed544faa07c223a05d870de9ce06fe53281bf2d1a753518d37 ++
      toBeBytes 15 0x760d030a268494c235b7fc0ecc5747,
    .ofNat 0xfd4aa36b0c25daea14c1c84e5673dda6fa8ddb902712c0a2d947b938d9117467),
  (toBeBytes 40 0xf85d943222222222222222222222222222222222222222b846f8448007a000000000000000000000 ++
      toBeBytes 40 0x00000000000000000000000000000000000000000000a0c5d2460186f7233c927e7db2dcc703c0e5 ++
      toBeBytes 15 0x00b653ca82273b7bfad8045d85a470,
    .ofNat 0xe9e5eeae046804f9a40fd10a817cf841569e77aa60c4eebb2f8553003f79cbf0),
  (toBeBytes 40 0xf85f943917b4d08a3a9e2b975ff44088133b9b64230de8b848f846018202dda00000000000000000 ++
      toBeBytes 40 0x000000000000000000000000000000000000000000000000a0c5d2460186f7233c927e7db2dcc703 ++
      toBeBytes 17 0xc0e500b653ca82273b7bfad8045d85a470,
    .ofNat 0x3cd4bb2404abec0bae3214c4b0cfaed455ee6660c98209176279674ddc19e4f2),
  (toBeBytes 40 0xf8518080a0e9e5eeae046804f9a40fd10a817cf841569e77aa60c4eebb2f8553003f79cbf080a03c ++
      toBeBytes 40 0xd4bb2404abec0bae3214c4b0cfaed455ee6660c98209176279674ddc19e4f2808080808080808080 ++
      toBeBytes 3 0x808080,
    .ofNat 0x03b7cf96fffdb8b08011a4c745cee85224f9d8bdf98cbb461c98acd15e93ba84)]
  [((.ofNat 0xcf2279b357c605d3c5899fafe5e70d30c314e3b46717b10b412644914399cbbb,
      toBeBytes 32 0x0e264378c1122586a7fce96f9c8d3d80b515618cd0c3271463ed544faa07c223 ++
        toBeBytes 32 0x5d870de9ce06fe53281bf2d1a753518d37760d030a268494c235b7fc0ecc5747, 0),
    .ofNat (0x04f3a89936d60aac3405e9dcc9df48d7bc24bcc9b450b79e3b8d08eb33a8b373e2 <<< 256 +
      0xd771baf416f9ea88850f5d5aa5db9b91eb0e93cd7771b890dbd91f1175d5789b))]

def sampleBlock (parentHash gasUsed number : Nat) (transactions : List SignedTransaction) : Block where
  header := ⟨.ofNat parentHash, .zero, .zero, .zero, 100, BitVec.ofNat 64 gasUsed, BitVec.ofNat 64 number,
    BitVec.ofNat 64 number⟩
  transactions := transactions

def samplePublicKey : FixedBytes 65 :=
  .ofNat (0x04f3a89936d60aac3405e9dcc9df48d7bc24bcc9b450b79e3b8d08eb33a8b373e2 <<< 256 +
    0xd771baf416f9ea88850f5d5aa5db9b91eb0e93cd7771b890dbd91f1175d5789b)

def sampleSender : Address := .ofNat 0x4917b4d08a3a9e2b975ff44088133b9b64230de8

def sampleGenesis : Genesis where
  block := sampleBlock 0 0 0 []
  accounts := (∅ : HashMap Address Account).insert sampleSender { Account.default with balance := 2000 }
  chainId := 1
  totalDifficulty := 0
  number := rfl

/-- A transfer of 7 at the price 60, signed for chain 1. -/
def sampleTransfer : SignedTransaction where
  transaction := .legacy 0 60 21 (some (.ofNat 0x2222222222222222222222222222222222222222)) 7 []
  v := 37
  r := .ofNat 0x0e264378c1122586a7fce96f9c8d3d80b515618cd0c3271463ed544faa07c223
  s := .ofNat 0x5d870de9ce06fe53281bf2d1a753518d37760d030a268494c235b7fc0ecc5747

def sampleFirst : PendingBlock :=
  ⟨sampleBlock 0xac323fb52305d0e53e6ecd545dc3d05abf57d846260129534c1966d2deeef619 21 1 [sampleTransfer], ⟨0⟩⟩

def sampleSecond : PendingBlock :=
  ⟨sampleBlock 0x458472e7909648dff74228f60aa2e3ea4a2528af505c9f3eb857ce06e6ac1586 0 2 [], ⟨0⟩⟩

theorem sample_reach : Reach sampleHost sampleGenesis (sampleGenesis.processor sampleHost) :=
  .boot (sampleGenesis.boot_eq sampleHost)

/-- The second block arrives first, waits for its parent and is committed with it. -/
theorem sample_reach_both : ∃ processor, Reach sampleHost sampleGenesis processor ∧
    processor.committedBlocks = [sampleFirst.block, sampleSecond.block] := by
  have committed : ((deliverAll sampleHost (sampleGenesis.processor sampleHost) [sampleSecond, sampleFirst]).map
      fun run => run.2.committedBlocks) = some [sampleFirst.block, sampleSecond.block] := by decide +kernel
  obtain ⟨run, ran, same⟩ := Option.map_eq_some_iff.mp committed
  exact ⟨run.2, sample_reach.run ran, same⟩

theorem chain_integrity_two_blocks : ∃ processor, Reach sampleHost sampleGenesis processor ∧
    processor.committedBlocks = [sampleFirst.block, sampleSecond.block] ∧
      ChainIntegrity sampleHost sampleGenesis processor := by
  obtain ⟨processor, reach, both⟩ := sample_reach_both
  exact ⟨processor, reach, both, (chain_integrity reach).1⟩

end Sample

end MiniEthNode
