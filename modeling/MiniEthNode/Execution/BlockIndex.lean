import MiniEthNode.Execution.Journal

namespace MiniEthNode
open Rust

namespace InMemoryProvider

/-- Calls of `insert_block` one after the other. -/
def insertBlocks (host : Host) : List Block → Exec InMemoryProvider ExecutionError Unit
  | [] => pure ()
  | block :: rest => do
    insertBlock host block
    insertBlocks host rest

variable {host : Host} {provider : InMemoryProvider}

/-- The two maps after a sequence of insertions: in both of them the last write to a key wins. -/
theorem insertBlocks_maps (host : Host) (blocks : List Block) (start : InMemoryProvider) :
    ∃ after, insertBlocks host blocks start = .ok ((), after) ∧
      after.blocksByHash = HashMap.insertAll start.blocksByHash
        (blocks.map fun block => (headerHash host block.header, block.header.number)) ∧
      after.blocks = HashMap.insertAll start.blocks (blocks.map fun block => (block.header.number, block)) := by
  induction blocks generalizing start with
  | nil => exact ⟨start, rfl, rfl, rfl⟩
  | cons block rest ih =>
    obtain ⟨after, ran, byHash, byNumber⟩ := ih (start.withBlock host block)
    refine ⟨after, ?_, byHash, byNumber⟩
    rw [insertBlocks, Exec.bind_ok (insertBlock_eq host block start), ran]

/-- A block that is found by a hash shares its number with a block of that hash. -/
theorem getBlockByHash_inserted {blocks : List Block} {hash : B256} {block : Block}
    (ran : insertBlocks host blocks default = .ok ((), provider)) (found : provider.getBlockByHash hash = .ok block) :
    ∃ entered ∈ blocks, headerHash host entered.header = hash ∧ block ∈ blocks ∧
      block.header.number = entered.header.number := by
  obtain ⟨after, ran', byHash, byNumber⟩ := insertBlocks_maps host blocks default
  cases ran.symm.trans ran'
  obtain ⟨number, atHash, atNumber⟩ := Outcome.bind_eq_ok.mp found
  rw [Outcome.okOr_eq_ok, byHash] at atHash
  rw [getBlockByNumber, Outcome.okOr_eq_ok, byNumber] at atNumber
  rcases HashMap.mem_of_lookup_insertAll atHash with empty | entered
  · cases empty
  rcases HashMap.mem_of_lookup_insertAll atNumber with empty | stored
  · cases empty
  obtain ⟨first, member, same⟩ := List.mem_map.mp entered
  obtain ⟨second, member', same'⟩ := List.mem_map.mp stored
  cases same
  obtain ⟨number, rfl⟩ := Prod.mk.inj same'
  exact ⟨first, member, rfl, member', number⟩

/-- The hashes of all blocks of one number lead to the last of them. -/
theorem getBlockByHash_last {blocks : List Block} (ran : insertBlocks host blocks default = .ok ((), provider))
    (distinct : ∀ first ∈ blocks, ∀ second ∈ blocks,
      headerHash host first.header = headerHash host second.header → first.header = second.header)
    {block : Block} (member : block ∈ blocks) :
    ∃ last ∈ blocks, ∀ entered ∈ blocks, entered.header.number = block.header.number →
      provider.getBlockByHash (headerHash host entered.header) = .ok last := by
  obtain ⟨after, ran', byHash, byNumber⟩ := insertBlocks_maps host blocks default
  cases ran.symm.trans ran'
  have written : block.header.number ∈ (blocks.map fun block => (block.header.number, block)).map Prod.fst :=
    List.mem_map_of_mem (f := Prod.fst) (List.mem_map_of_mem (f := fun block => (block.header.number, block)) member)
  obtain ⟨last, stored, inside⟩ := HashMap.lookup_insertAll_of_key (m := default.blocks) written
  obtain ⟨_, listed, same⟩ := List.mem_map.mp inside
  obtain ⟨-, rfl⟩ := Prod.mk.inj same
  refine ⟨_, listed, fun entered listed' number => ?_⟩
  have written : headerHash host entered.header ∈
      (blocks.map fun block => (headerHash host block.header, block.header.number)).map Prod.fst :=
    List.mem_map_of_mem (f := Prod.fst)
      (List.mem_map_of_mem (f := fun block => (headerHash host block.header, block.header.number)) listed')
  obtain ⟨_, indexed, inside⟩ := HashMap.lookup_insertAll_of_key (m := default.blocksByHash) written
  obtain ⟨other, listed'', same⟩ := List.mem_map.mp inside
  obtain ⟨hash, rfl⟩ := Prod.mk.inj same
  rw [distinct other listed'' entered listed' hash, number] at indexed
  refine Outcome.bind_eq_ok.mpr ⟨block.header.number, ?_, ?_⟩
  · rw [Outcome.okOr_eq_ok, byHash]
    exact indexed
  · rw [getBlockByNumber, Outcome.okOr_eq_ok, byNumber]
    exact stored

theorem getHeaderByHash_ok {hash : B256} {header : Header} (found : provider.getHeaderByHash hash = .ok header) :
    ∃ block, provider.getBlockByHash hash = .ok block ∧ block.header = header := by
  obtain ⟨number, atHash, atNumber⟩ := Outcome.bind_eq_ok.mp found
  obtain ⟨block, stored, same⟩ := Option.map_eq_some_iff.mp (Outcome.okOr_eq_ok.mp atNumber)
  exact ⟨block, Outcome.bind_eq_ok.mpr ⟨number, atHash, Outcome.okOr_eq_ok.mpr stored⟩, same⟩

end InMemoryProvider

/-- A call of one of the mutators of the provider. -/
inductive Update where
  | block (block : Block)
  | transaction (hash : B256) (transaction : SignedTransaction) (blockNumber : BlockNumber)
  | receipt (receipt : Receipt)
  | state (write : Write)
  deriving DecidableEq

namespace InMemoryProvider

def update (host : Host) : Update → Exec InMemoryProvider ExecutionError Unit
  | .block block => insertBlock host block
  | .transaction hash transaction blockNumber =>
    Exec.modify fun provider => provider.insertTransaction hash transaction blockNumber
  | .receipt receipt => Exec.modify fun provider => provider.insertReceipt receipt
  | .state write => Exec.modify fun provider => provider.write write

def updateAll (host : Host) : List Update → Exec InMemoryProvider ExecutionError Unit
  | [] => pure ()
  | entry :: rest => do
    update host entry
    updateAll host rest

/-- A block that is stored under a number has that number, and its own hash leads to it. The hash of
a block that was replaced may lead to it as well. -/
structure Indexed (host : Host) (provider : InMemoryProvider) : Prop where
  numbered : ∀ {number block}, provider.blocks.lookup number = some block → block.header.number = number
  hashed : ∀ {number block}, provider.blocks.lookup number = some block →
    provider.blocksByHash.lookup (headerHash host block.header) = some number

variable {host : Host} {provider : InMemoryProvider}

theorem Indexed.of_maps {after : InMemoryProvider} (indexed : provider.Indexed host)
    (byNumber : after.blocks = provider.blocks) (byHash : after.blocksByHash = provider.blocksByHash) :
    after.Indexed host := by
  refine ⟨fun found => ?_, fun found => ?_⟩
  · rw [byNumber] at found
    exact indexed.numbered found
  · rw [byNumber] at found
    rw [byHash]
    exact indexed.hashed found

/-- A new block may take the number of a stored one, but not its hash. -/
theorem Indexed.withBlock {block : Block} (indexed : provider.Indexed host)
    (distinct : ∀ {number stored}, provider.blocks.lookup number = some stored →
      headerHash host stored.header = headerHash host block.header → stored.header = block.header) :
    (provider.withBlock host block).Indexed host := by
  refine ⟨fun {number stored} found => ?_, fun {number stored} found => ?_⟩
  · rw [InMemoryProvider.withBlock, HashMap.lookup_insert_ite] at found
    split at found
    · rename_i here
      cases found
      exact here.symm
    · exact indexed.numbered found
  · rw [InMemoryProvider.withBlock, HashMap.lookup_insert_ite] at found
    rw [InMemoryProvider.withBlock, HashMap.lookup_insert_ite]
    split at found
    · rename_i here
      cases found
      rw [if_pos rfl, here]
    · rename_i elsewhere
      split
      · rename_i clash
        have number := indexed.numbered found
        rw [distinct found clash] at number
        exact absurd number.symm elsewhere
      · exact indexed.hashed found

section Updates
variable {entered : Block → Prop}
  (distinct : ∀ {first second}, entered first → entered second →
    headerHash host first.header = headerHash host second.header → first.header = second.header)
include distinct

theorem update_indexed {entry : Update} (indexed : provider.Indexed host)
    (stored : ∀ {number block}, provider.blocks.lookup number = some block → entered block)
    (next : ∀ {block}, entry = .block block → entered block) :
    ∃ after, update host entry provider = .ok ((), after) ∧ after.Indexed host ∧
      ∀ {number block}, after.blocks.lookup number = some block → entered block := by
  cases entry with
  | block block =>
    have kept := indexed.withBlock fun found clash => distinct (stored found) (next rfl) clash
    refine ⟨provider.withBlock host block, insertBlock_eq host block provider, kept, fun {number other} found => ?_⟩
    rw [withBlock, HashMap.lookup_insert_ite] at found
    split at found
    · cases found
      exact next rfl
    · exact stored found
  | transaction hash transaction blockNumber => exact ⟨_, rfl, indexed.of_maps rfl rfl, stored⟩
  | receipt receipt => exact ⟨_, rfl, indexed.of_maps rfl rfl, stored⟩
  | state write =>
    cases write with
    | account address info => exact ⟨_, rfl, indexed.of_maps rfl rfl, stored⟩
    | storage address slot value => exact ⟨_, rfl, indexed.of_maps rfl rfl, stored⟩

theorem updateAll_indexed {updates : List Update} (indexed : provider.Indexed host)
    (stored : ∀ {number block}, provider.blocks.lookup number = some block → entered block)
    (all : ∀ {block}, .block block ∈ updates → entered block) :
    ∃ after, updateAll host updates provider = .ok ((), after) ∧ after.Indexed host := by
  induction updates generalizing provider with
  | nil => exact ⟨provider, rfl, indexed⟩
  | cons entry rest ih =>
    obtain ⟨between, first, indexed', stored'⟩ := update_indexed distinct indexed stored
      fun same => all (same ▸ List.mem_cons_self)
    obtain ⟨after, ran, final⟩ := ih indexed' stored' fun member => all (List.mem_cons_of_mem _ member)
    exact ⟨after, by rw [updateAll, Exec.bind_ok first, ran], final⟩

end Updates

/-- Whatever a provider is filled with, it is indexed as long as no two headers share a hash. -/
theorem built_indexed {updates : List Update}
    (distinct : ∀ first second, .block first ∈ updates → .block second ∈ updates →
      hashHeader host first.header = hashHeader host second.header → first.header = second.header) :
    ∃ provider, updateAll host updates default = .ok ((), provider) ∧ provider.Indexed host := by
  have nothing {number : BlockNumber} {block : Block} : default.blocks.lookup number ≠ some block := nofun
  have blank : default.Indexed host := ⟨fun found => absurd found nothing, fun found => absurd found nothing⟩
  refine updateAll_indexed (fun {first second} member member' same => ?_) blank (fun found => absurd found nothing)
    (fun {block} (member : .block block ∈ updates) => member)
  refine distinct first second member member' ?_
  rw [hashHeader_eq, hashHeader_eq, same]

end InMemoryProvider

/-- What is found by a hash has that hash. -/
def InMemoryProvider.IndexSound (host : Host) (provider : InMemoryProvider) : Prop :=
  ∀ hash, (∀ block, provider.getBlockByHash hash = .ok block → hashHeader host block.header = .ok hash) ∧
    ∀ header, provider.getHeaderByHash hash = .ok header → hashHeader host header = .ok hash

/-- Where no two different headers share a number, the index is sound. Unless headers share a hash, it is sound only
there. -/
theorem block_index_sound {host : Host} {blocks : List Block} {provider : InMemoryProvider}
    (ran : InMemoryProvider.insertBlocks host blocks InMemoryProvider.default = .ok ((), provider)) :
    ((∀ first ∈ blocks, ∀ second ∈ blocks, first.header.number = second.header.number →
        first.header = second.header) → provider.IndexSound host) ∧
      ((∀ first ∈ blocks, ∀ second ∈ blocks, hashHeader host first.header = hashHeader host second.header →
        first.header = second.header) → provider.IndexSound host →
        ∀ first ∈ blocks, ∀ second ∈ blocks, first.header.number = second.header.number →
          first.header = second.header) := by
  refine ⟨fun once hash => ?_, fun distinct sound first member second member' number => ?_⟩
  · have sound : ∀ block, provider.getBlockByHash hash = .ok block → hashHeader host block.header = .ok hash := by
      intro block found
      obtain ⟨entered, member, same, stored, number⟩ := InMemoryProvider.getBlockByHash_inserted ran found
      rw [hashHeader_eq, once block stored entered member number, same]
    refine ⟨sound, fun header found => ?_⟩
    obtain ⟨block, whole, rfl⟩ := InMemoryProvider.getHeaderByHash_ok found
    exact sound block whole
  · have apart : ∀ first ∈ blocks, ∀ second ∈ blocks,
        headerHash host first.header = headerHash host second.header → first.header = second.header := by
      intro first member second member' same
      exact distinct first member second member' (by rw [hashHeader_eq, hashHeader_eq, same])
    obtain ⟨last, listed, leads⟩ := InMemoryProvider.getBlockByHash_last ran apart member'
    -- both blocks are found as the last one of their number
    have same : ∀ entered ∈ blocks, entered.header.number = second.header.number → last.header = entered.header := by
      intro entered member shared
      have hashed := (sound _).1 last (leads entered member shared)
      exact distinct last listed entered member (by rw [hashed, hashHeader_eq])
    rw [← same first member number, ← same second member' rfl]

section Sample

/-- An empty block of number 2 that says how much gas it used. -/
def numberedBlock (gasUsed : U64) : Block := ⟨⟨.zero, .zero, .zero, .zero, 100, gasUsed, 2, 2⟩, []⟩

/-- The digests of two such blocks. -/
def numberedHost : Host := Host.ofGraph [
  (toBeBytes 40 0xf87ca000000000000000000000000000000000000000000000000000000000000000009400000000 ++
      toBeBytes 40 0x00000000000000000000000000000000a00000000000000000000000000000000000000000000000 ++
      toBeBytes 40 0x000000000000000000a0000000000000000000000000000000000000000000000000000000000000 ++
      toBeBytes 6 0x000064800202,
    .ofNat 0xddf03cc16020669da91f161e7eea1cf2524283897fbbd601a4b79a2d8255df15),
  (toBeBytes 40 0xf87ca000000000000000000000000000000000000000000000000000000000000000009400000000 ++
      toBeBytes 40 0x00000000000000000000000000000000a00000000000000000000000000000000000000000000000 ++
      toBeBytes 40 0x000000000000000000a0000000000000000000000000000000000000000000000000000000000000 ++
      toBeBytes 6 0x000064010202,
    .ofNat 0xd8ef3044073e9ff6505a7ab4ba38055e87d20e75cc25f20c6439695ece3dcdc3)] []

/-- A block may be inserted again, but not another one of its number. -/
theorem block_index_sound_repeated : ∃ provider provider',
    InMemoryProvider.insertBlocks numberedHost [numberedBlock 0, numberedBlock 0] InMemoryProvider.default =
      .ok ((), provider) ∧ provider.IndexSound numberedHost ∧
    InMemoryProvider.insertBlocks numberedHost [numberedBlock 0, numberedBlock 1] InMemoryProvider.default =
      .ok ((), provider') ∧ ¬ provider'.IndexSound numberedHost := by
  obtain ⟨provider, ran, _⟩ :=
    InMemoryProvider.insertBlocks_maps numberedHost [numberedBlock 0, numberedBlock 0] InMemoryProvider.default
  obtain ⟨provider', ran', _⟩ :=
    InMemoryProvider.insertBlocks_maps numberedHost [numberedBlock 0, numberedBlock 1] InMemoryProvider.default
  refine ⟨provider, provider', ran, (block_index_sound ran).1 (by simp), ran', fun sound => ?_⟩
  have same := (block_index_sound ran').2 (by decide +kernel) sound (numberedBlock 0) (by simp) (numberedBlock 1)
    (by simp) rfl
  exact absurd same (by decide)

/-- After a second block of the same number, the hash of the first one leads to the second. -/
theorem block_index_replaced : ∃ provider hash block,
    InMemoryProvider.insertBlocks numberedHost [numberedBlock 0, numberedBlock 1] InMemoryProvider.default =
      .ok ((), provider) ∧
    hashHeader numberedHost (numberedBlock 0).header = .ok hash ∧ provider.getBlockByHash hash = .ok block ∧
    provider.getHeaderByHash hash = .ok block.header ∧ hashHeader numberedHost block.header ≠ .ok hash := by
  refine ⟨_, headerHash numberedHost (numberedBlock 0).header, numberedBlock 1, rfl, hashHeader_eq _ _, ?_, ?_, ?_⟩
  · decide +kernel
  · decide +kernel
  · decide +kernel

end Sample

end MiniEthNode
