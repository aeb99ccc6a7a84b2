import MiniEthNode.BlockBuilder.Session
import MiniEthNode.Execution.StateRoot

namespace MiniEthNode
open Rust

structure GenesisAccount where
  address : Address
  balance : U128
  deriving DecidableEq

structure GenesisConfig where
  chainId : U64
  accounts : List GenesisAccount
  genesisTimestamp : U64
  deriving DecidableEq

def gasLimitPerBlock : U64 := 30000000

namespace GenesisConfig

def genesisHeader (config : GenesisConfig) : Header where
  parentHash := FixedBytes.zero
  beneficiary := FixedBytes.zero
  stateRoot := FixedBytes.zero
  transactionsRoot := FixedBytes.zero
  gasLimit := gasLimitPerBlock
  gasUsed := 0
  timestamp := config.genesisTimestamp
  number := 0

def genesisHeaderWithStateRoot (config : GenesisConfig) (stateRoot : B256) : Header :=
  { config.genesisHeader with stateRoot := stateRoot }

end GenesisConfig

/-- The options of the genesis, which the node and the client have alike. -/
structure GenesisOptions where
  chainId : U64
  genesisAccountCount : UInt8
  genesisBalance : U128
  genesisTimestamp : U64

inductive SetupError where
  | signing (error : SigningError)
  | trie (error : TrieError)
  | hashing (error : RlpError)
  | processor (error : ProcessorError)
  | builder (error : BuilderError)
  deriving DecidableEq

/-- The transaction that only tells the address of a key. -/
def dummyTx : Transaction := .legacy 0 1000000000 21000 none 0 []

/-- The key `[i + 1; 32]`. The loop ends before the sum overflows. -/
def genesisKey (i : UInt8) : FixedBytes 32 := ⟨List.replicate 32 (i + 1), List.length_replicate⟩

/-- The range of the loops over the genesis accounts. -/
def GenesisOptions.indices (options : GenesisOptions) : List UInt8 :=
  (List.range options.genesisAccountCount.toNat).map UInt8.ofNat

section Setup
variable (host : Host) (signer : Signer) (options : GenesisOptions)

/-- The body of the loops, up to the account. -/
def genesisAccount (privateKey : FixedBytes 32) : Outcome SetupError GenesisAccount := do
  let signedTransaction ← (sign host signer dummyTx privateKey.bytes options.chainId).mapErr .signing
  let address ← (recoverSender host signedTransaction options.chainId).mapErr .signing
  .ok ⟨address, options.genesisBalance⟩

/-- The loop of the node. -/
def nodeAccounts : List UInt8 → List GenesisAccount → Outcome SetupError (List GenesisAccount)
  | [], genesisAccounts => .ok genesisAccounts
  | i :: rest, genesisAccounts => do
    let account ← genesisAccount host signer options (genesisKey i)
    nodeAccounts rest (genesisAccounts ++ [account])

/-- The loop of the client, which also keeps the keys. -/
def clientAccounts : List UInt8 → List (FixedBytes 32) → List GenesisAccount →
    Outcome SetupError (List (FixedBytes 32) × List GenesisAccount)
  | [], signingKeys, genesisAccounts => .ok (signingKeys, genesisAccounts)
  | i :: rest, signingKeys, genesisAccounts => do
    let account ← genesisAccount host signer options (genesisKey i)
    clientAccounts rest (signingKeys ++ [genesisKey i]) (genesisAccounts ++ [account])

def GenesisAccount.account (genesisAccount : GenesisAccount) : Account :=
  { Account.default with balance := genesisAccount.balance }

/-- The loop of the node over its genesis accounts: they go into a provider and into a map. -/
def fundNode (funds : InMemoryProvider × HashMap Address Account) (genesisAccount : GenesisAccount) :
    InMemoryProvider × HashMap Address Account :=
  (funds.1.setAccount genesisAccount.address genesisAccount.account,
    funds.2.insert genesisAccount.address genesisAccount.account)

/-- The loop of the client. -/
def fundClient (provider : InMemoryProvider) (genesisAccount : GenesisAccount) : InMemoryProvider :=
  provider.setAccount genesisAccount.address genesisAccount.account

/-- `main` of the node, up to the processor. A dry run ends before it. -/
def setupNode (dryRun : Bool) : Outcome SetupError (Option BlockProcessor) := do
  let genesisAccounts ← nodeAccounts host signer options options.indices []
  let genesisConfig : GenesisConfig := ⟨options.chainId, genesisAccounts, options.genesisTimestamp⟩
  let (provider, accounts) := genesisConfig.accounts.foldl fundNode (InMemoryProvider.default, ∅)
  let stateRoot ← (computeStateRoot host provider).mapErr .trie
  let genesisHeader := genesisConfig.genesisHeaderWithStateRoot stateRoot
  let genesisBlock : Block := ⟨genesisHeader, []⟩
  let genesisHash ← (hashHeader host genesisHeader).mapErr .hashing
  if dryRun then
    .ok none
  else do
    let chainHead : ChainHead := ⟨0, genesisHash, 0⟩
    let processor ← (BlockProcessor.new host genesisBlock accounts genesisConfig.chainId chainHead).mapErr .processor
    .ok (some processor)

/-- `main` of the client, up to the builder. -/
def setupClient : Outcome SetupError (GenesisConfig × BlockBuilder) := do
  let (signingKeys, genesisAccounts) ← clientAccounts host signer options options.indices [] []
  let genesisConfig : GenesisConfig := ⟨options.chainId, genesisAccounts, options.genesisTimestamp⟩
  let provider := genesisConfig.accounts.foldl fundClient InMemoryProvider.default
  let stateRoot ← (computeStateRoot host provider).mapErr .trie
  let genesisHeader := genesisConfig.genesisHeaderWithStateRoot stateRoot
  let genesisHash ← (hashHeader host genesisHeader).mapErr .hashing
  let builder ← (BlockBuilder.new options.chainId genesisHash options.genesisTimestamp genesisHeader.gasLimit
    signingKeys).mapErr .builder
  .ok (genesisConfig, builder)

end Setup

section Agreement
variable {host : Host} {signer : Signer} {options : GenesisOptions}

/-- The state that genesis accounts add up to. A later account for an address replaces an earlier one. -/
def fundedState (accounts : List GenesisAccount) : HashMap Address Account :=
  HashMap.insertAll ∅ (accounts.map fun genesisAccount => (genesisAccount.address, genesisAccount.account))

theorem foldl_fundClient (accounts : List GenesisAccount) {provider : InMemoryProvider}
    (closed : provider.journal = none) :
    accounts.foldl fundClient provider = { provider with
      state := HashMap.insertAll provider.state (accounts.map fun account => (account.address, account.account)) } := by
  induction accounts generalizing provider with
  | nil => rfl
  | cons account rest ih =>
    rw [List.foldl_cons, fundClient, ih (by simp [InMemoryProvider.setAccount, closed])]
    simp [InMemoryProvider.setAccount, closed]

theorem foldl_fundClient_default (accounts : List GenesisAccount) :
    accounts.foldl fundClient InMemoryProvider.default = freshProvider (fundedState accounts) :=
  foldl_fundClient accounts rfl

theorem foldl_fundNode (accounts : List GenesisAccount) (funds : InMemoryProvider × HashMap Address Account) :
    accounts.foldl fundNode funds = (accounts.foldl fundClient funds.1,
      HashMap.insertAll funds.2 (accounts.map fun account => (account.address, account.account))) := by
  induction accounts generalizing funds with
  | nil => rfl
  | cons account rest ih =>
    rw [List.foldl_cons, ih]
    rfl

theorem foldl_fundNode_default (accounts : List GenesisAccount) :
    accounts.foldl fundNode (InMemoryProvider.default, ∅) =
      (freshProvider (fundedState accounts), fundedState accounts) := by
  rw [foldl_fundNode, foldl_fundClient_default]
  rfl

/-- The keys are those of the range, in its order. -/
theorem clientAccounts_eq (indices : List UInt8) (signingKeys : List (FixedBytes 32))
    (genesisAccounts : List GenesisAccount) :
    clientAccounts host signer options indices signingKeys genesisAccounts =
      nodeAccounts host signer options indices genesisAccounts >>= fun accounts =>
        .ok (signingKeys ++ indices.map genesisKey, accounts) := by
  induction indices generalizing signingKeys genesisAccounts with
  | nil => simp [clientAccounts, nodeAccounts]
  | cons i rest ih =>
    unfold clientAccounts nodeAccounts
    cases genesisAccount host signer options (genesisKey i) with
    | ok account =>
      simp only [Outcome.ok_bind]
      rw [ih, List.map_cons, List.append_assoc, List.singleton_append]
    | err error => rfl
    | panic => rfl

/-- The genesis of a node with these accounts. -/
noncomputable def GenesisOptions.genesis (options : GenesisOptions) (host : Host) (accounts : List GenesisAccount) : Genesis where
  block := ⟨(GenesisConfig.mk options.chainId accounts options.genesisTimestamp).genesisHeaderWithStateRoot
    (trieRoot host.keccak256 (accountEntries (fundedState accounts))), []⟩
  accounts := fundedState accounts
  chainId := options.chainId
  totalDifficulty := 0
  number := rfl

/-- The builder of a client with these accounts. -/
noncomputable def GenesisOptions.builder (options : GenesisOptions) (host : Host) (accounts : List GenesisAccount) :
    BlockBuilder where
  state := ⟨options.indices.map genesisKey, 0, headerHash host (options.genesis host accounts).block.header,
    options.genesisTimestamp, options.genesisTimestamp, options.chainId⟩
  genesisGasLimit := gasLimitPerBlock

theorem setupNode_eq (dryRun : Bool) :
    setupNode host signer options dryRun =
      nodeAccounts host signer options options.indices [] >>= fun accounts =>
        .ok (if dryRun then none else some ((options.genesis host accounts).processor host)) := by
  unfold setupNode
  congr 1
  funext accounts
  have booted := (options.genesis host accounts).boot_eq host
  rw [Genesis.boot, hashHeader_eq, Outcome.mapErr_ok, Outcome.ok_bind] at booted
  dsimp only
  rw [foldl_fundNode_default]
  dsimp only
  rw [computeStateRoot_eq, Outcome.mapErr_ok, Outcome.ok_bind, hashHeader_eq, Outcome.mapErr_ok, Outcome.ok_bind]
  cases dryRun with
  | true => rfl
  | false =>
    change Outcome.mapErr _ (BlockProcessor.new host (options.genesis host accounts).block
      (options.genesis host accounts).accounts (options.genesis host accounts).chainId
      ⟨0, headerHash host (options.genesis host accounts).block.header, (options.genesis host accounts).totalDifficulty⟩)
      >>= _ = _
    rw [booted]
    rfl

theorem setupClient_eq :
    setupClient host signer options =
      nodeAccounts host signer options options.indices [] >>= fun accounts =>
        .ok (⟨options.chainId, accounts, options.genesisTimestamp⟩, options.builder host accounts) := by
  unfold setupClient
  rw [clientAccounts_eq]
  cases nodeAccounts host signer options options.indices [] with
  | ok accounts =>
    simp only [Outcome.ok_bind, List.nil_append]
    rw [foldl_fundClient_default, computeStateRoot_eq, Outcome.mapErr_ok, Outcome.ok_bind, hashHeader_eq,
      Outcome.mapErr_ok, Outcome.ok_bind]
    rfl
  | err error => rfl
  | panic => rfl

/-- The addresses of the keys do not depend on the order of any map. -/
theorem nodeAccounts_iteration (order : Iteration Address) (indices : List UInt8) (accounts : List GenesisAccount) :
    nodeAccounts { host with iteration := order } signer options indices accounts =
      nodeAccounts host signer options indices accounts := by
  induction indices generalizing accounts with
  | nil => rfl
  | cons i rest ih =>
    unfold nodeAccounts
    refine congrArg (genesisAccount host signer options (genesisKey i) >>= ·) ?_
    funext account
    exact ih _

/-- Each account is that of the key with its index. -/
theorem nodeAccounts_ok {indices : List UInt8} {before accounts : List GenesisAccount}
    (ran : nodeAccounts host signer options indices before = .ok accounts) :
    ∃ made, accounts = before ++ made ∧
      List.Forall₂ (fun i account => genesisAccount host signer options (genesisKey i) = .ok account) indices made := by
  induction indices generalizing before with
  | nil =>
    cases ran
    exact ⟨[], (List.append_nil _).symm, .nil⟩
  | cons i rest ih =>
    obtain ⟨account, first, ran⟩ := Outcome.bind_eq_ok.mp ran
    obtain ⟨made, rfl, later⟩ := ih ran
    exact ⟨account :: made, List.append_assoc _ _ _, .cons first later⟩

/-- The builder finds the same address for the key. -/
theorem genesisAccount_sender {key : FixedBytes 32} {account : GenesisAccount} {builder : BlockBuilder}
    (ran : genesisAccount host signer options key = .ok account) (sameChain : builder.state.chainId = options.chainId) :
    builder.senderAddress host signer key = .ok account.address := by
  obtain ⟨signed, signs, ran⟩ := Outcome.bind_eq_ok.mp ran
  obtain ⟨address, recovers, ran⟩ := Outcome.bind_eq_ok.mp ran
  cases ran
  refine Outcome.bind_eq_ok.mpr ⟨signed, ?_, ?_⟩
  · rw [sameChain]
    exact Outcome.mapErr_eq_ok.mpr (Outcome.mapErr_eq_ok.mp signs)
  · rw [sameChain]
    exact Outcome.mapErr_eq_ok.mpr (Outcome.mapErr_eq_ok.mp recovers)

theorem genesisAccount_balance {key : FixedBytes 32} {account : GenesisAccount}
    (ran : genesisAccount host signer options key = .ok account) : account.balance = options.genesisBalance := by
  obtain ⟨_, _, ran⟩ := Outcome.bind_eq_ok.mp ran
  obtain ⟨_, _, ran⟩ := Outcome.bind_eq_ok.mp ran
  cases ran
  rfl

/-- A funded account has the genesis balance, whatever comes after it. -/
theorem lookup_fundedState {accounts : List GenesisAccount} {balance : U128}
    (same : ∀ account ∈ accounts, account.balance = balance) {account : GenesisAccount} (member : account ∈ accounts) :
    (fundedState accounts).lookup account.address = some { Account.default with balance := balance } := by
  have key : account.address ∈ (accounts.map fun account => (account.address, account.account)).map Prod.fst := by
    rw [List.map_map]
    exact List.mem_map_of_mem member
  obtain ⟨value, found, inside⟩ := HashMap.lookup_insertAll_of_key (m := ∅) key
  obtain ⟨other, listed, pair⟩ := List.mem_map.mp inside
  obtain ⟨_, rfl⟩ := Prod.mk.inj pair
  rw [← same other listed]
  exact found

/-- Accounts for the same address count once. -/
theorem totalBalance_fundedState_le {accounts : List GenesisAccount} {balance : U128}
    (same : ∀ account ∈ accounts, account.balance = balance) :
    totalBalance (fundedState accounts) ≤ accounts.length * balance.toNat := by
  have each (state : HashMap Address Account) : totalBalance (HashMap.insertAll state
      (accounts.map fun account => (account.address, account.account))) ≤
        totalBalance state + accounts.length * balance.toNat := by
    induction accounts generalizing state with
    | nil => simp
    | cons account rest ih =>
      obtain ⟨here, same⟩ := List.forall_mem_cons.mp same
      have later := ih same (state.insert account.address account.account)
      have inserted := totalBalance_insert state account.address account.account
      have funds : account.account.balance = balance := here
      rw [funds] at inserted
      rw [List.map_cons, HashMap.insertAll_cons, List.length_cons, Nat.add_mul, Nat.one_mul]
      dsimp only
      omega
  exact (each ∅).trans (Nat.zero_add _).le

/-- The accounts belong to the keys of the range. -/
def Derived (host : Host) (signer : Signer) (options : GenesisOptions) (accounts : List GenesisAccount) : Prop :=
  List.Forall₂ (fun i account => genesisAccount host signer options (genesisKey i) = .ok account) options.indices accounts

theorem Derived.account {accounts : List GenesisAccount} (derived : Derived host signer options accounts) {index : Nat}
    {account : GenesisAccount} (found : accounts[index]? = some account) :
    ∃ i, options.indices[index]? = some i ∧ genesisAccount host signer options (genesisKey i) = .ok account := by
  obtain ⟨inside, rfl⟩ := List.getElem?_eq_some_iff.mp found
  have inside' : index < options.indices.length := derived.length_eq ▸ inside
  exact ⟨_, List.getElem?_eq_getElem inside', derived.get inside' inside⟩

theorem Derived.senderOf {accounts : List GenesisAccount} (derived : Derived host signer options accounts) {index : Nat}
    {account : GenesisAccount} (found : accounts[index]? = some account) (recipient : Address) (value : U128)
    (gasLimit : U64) :
    (options.builder host accounts).senderOf host signer ⟨index, recipient, value, gasLimit⟩ = .ok account.address := by
  obtain ⟨i, atIndex, ran⟩ := derived.account found
  refine Outcome.bind_eq_ok.mpr ⟨genesisKey i, Outcome.okOr_eq_ok.mpr ?_, genesisAccount_sender ran rfl⟩
  change (options.indices.map genesisKey)[index]? = _
  rw [List.getElem?_map, atIndex]
  rfl

theorem Derived.balance {accounts : List GenesisAccount} (derived : Derived host signer options accounts)
    {account : GenesisAccount} (member : account ∈ accounts) : account.balance = options.genesisBalance := by
  obtain ⟨index, found⟩ := List.getElem?_of_mem member
  obtain ⟨i, _, ran⟩ := derived.account found
  exact genesisAccount_balance ran

theorem Derived.getAccount {accounts : List GenesisAccount} (derived : Derived host signer options accounts)
    {account : GenesisAccount} (member : account ∈ accounts) :
    ((options.genesis host accounts).processor host).pipeline.provider.getAccount account.address =
      .ok { Account.default with balance := options.genesisBalance } :=
  Outcome.okOr_eq_ok.mpr (lookup_fundedState (fun _ member => derived.balance member) member)

theorem GenesisOptions.indices_nodup (options : GenesisOptions) : options.indices.Nodup := by
  refine List.Nodup.map_on (fun i inside j inside' same => ?_) List.nodup_range
  have bound := options.genesisAccountCount.toNat_lt
  rw [List.mem_range] at inside inside'
  have value := congrArg UInt8.toNat same
  rw [UInt8.toNat_ofNat', UInt8.toNat_ofNat'] at value
  omega

/-- Keys with accounts of their own have addresses of their own. -/
theorem Derived.addresses_nodup {accounts : List GenesisAccount} (derived : Derived host signer options accounts)
    (distinct : ∀ i ∈ options.indices, ∀ j ∈ options.indices, ∀ account,
      genesisAccount host signer options (genesisKey i) = .ok account →
      genesisAccount host signer options (genesisKey j) = .ok account → i = j) :
    (accounts.map GenesisAccount.address).Nodup := by
  rw [List.Nodup, List.pairwise_map, List.pairwise_iff_getElem]
  intro i j inside inside' less same
  obtain ⟨key, atKey, made⟩ := derived.account (List.getElem?_eq_getElem inside)
  obtain ⟨key', atKey', made'⟩ := derived.account (List.getElem?_eq_getElem inside')
  have equal : accounts[i] = accounts[j] := by
    have first := derived.balance (List.getElem_mem inside)
    have second := derived.balance (List.getElem_mem inside')
    generalize accounts[i] = account at *
    generalize accounts[j] = account' at *
    cases account
    cases account'
    cases same
    cases first
    cases second
    rfl
  rw [equal] at made
  cases distinct key (List.mem_of_getElem? atKey) key' (List.mem_of_getElem? atKey') _ made made'
  obtain ⟨_, first⟩ := List.getElem?_eq_some_iff.mp atKey
  obtain ⟨_, second⟩ := List.getElem?_eq_some_iff.mp atKey'
  have equal := (options.indices_nodup.getElem_inj_iff).mp (first.trans second.symm)
  omega

end Agreement

section Agree
variable (host : Host) (signer : Signer) (options : GenesisOptions) (order : Iteration Address)

/-- With the same options the node and the client start together or fail together. If they start, the builder has
the head of the node, each of its keys is that of the account with its index, and the node holds these accounts. -/
theorem setup_agrees :
    (setupNode host signer options false).toError =
        (setupClient { host with iteration := order } signer options).toError ∧
      (setupNode host signer options false).isPanic =
        (setupClient { host with iteration := order } signer options).isPanic ∧
      ∀ config builder, setupClient { host with iteration := order } signer options = .ok (config, builder) →
        ∃ genesis, setupNode host signer options false = .ok (some (genesis.processor host)) ∧
          Session host signer genesis builder.state.signingKeys builder (genesis.processor host) ∧
          builder.currentHead = (0, (genesis.processor host).chainHead.hash) ∧
          config.accounts.length = options.genesisAccountCount.toNat ∧
          ∀ index account, config.accounts[index]? = some account →
            (∀ recipient value gasLimit,
              builder.senderOf host signer ⟨index, recipient, value, gasLimit⟩ = .ok account.address) ∧
            (genesis.processor host).pipeline.provider.getAccount account.address =
              .ok { Account.default with balance := options.genesisBalance } := by
  have same : nodeAccounts { host with iteration := order } signer options options.indices [] =
      nodeAccounts host signer options options.indices [] := nodeAccounts_iteration order _ _
  rw [setupNode_eq, setupClient_eq, same]
  cases derived : nodeAccounts host signer options options.indices [] with
  | err error => exact ⟨rfl, rfl, fun _ _ started => by cases started⟩
  | panic => exact ⟨rfl, rfl, fun _ _ started => by cases started⟩
  | ok accounts =>
    refine ⟨rfl, rfl, fun config builder started => ?_⟩
    have sameBuilder : options.builder { host with iteration := order } accounts = options.builder host accounts := rfl
    rw [Outcome.ok_bind, sameBuilder] at started
    cases started
    have each : Derived host signer options accounts := by
      obtain ⟨made, rfl, each⟩ := nodeAccounts_ok derived
      exact each
    refine ⟨options.genesis host accounts, rfl, .start rfl ((options.genesis host accounts).boot_eq host), rfl, ?_, ?_⟩
    · simpa [GenesisOptions.indices] using each.length_eq.symm
    · intro index account found
      exact ⟨each.senderOf found, each.getAccount (List.mem_of_getElem? found)⟩

end Agree

section Sample

/-- The public keys of the first two accounts. -/
def pairPublicKeys : List (FixedBytes 32 × FixedBytes 65) := [
  (genesisKey 0, .ofNat (0x041b84c5567b126440995d3ed5aaba0565d71e1834604819ff9c17f5e9d5dd078f <<< 256 +
    0x70beaf8f588b541507fed6a642c5ab42dfdf8120a7f639de5122d47a69a8e8d1)),
  (genesisKey 1, .ofNat (0x044d4b6cd1361032ca9bd2aeb9d900aa4d45d9ead80ac9423374c451a7254d0766 <<< 256 +
    0x2a3eada2d0fe208b6d257ceb0f064284662e857f57b66b54c198bd310ded36d0))]

/-- What the keys sign: the transaction that only tells the address, and transfers of one ether to either account with
the nonces 0 and 1. -/
def pairSignatures : List ((FixedBytes 32 × B256) × (FixedBytes 64 × UInt8)) := [
  ((genesisKey 0, .ofNat 0x3bc83319311b7b9600d622baa0309f2e70baa3b8e0359ab7f987a2deda1a8d27),
    (.ofNat (0xfa3696b40b91c600747fc7f66a0f5db8818bc9eac22eb704d0a1b8d3ecb33975 <<< 256 +
      0x7c4deceb0f4a16a773ec53b24bf26303d839c04c4455de077d530454fcefbdc9), 1)),
  ((genesisKey 0, .ofNat 0x91b6ff5dbb93bef59ddb5d0960f53c540a91677586eb557289cda15bb84044b0),
    (.ofNat (0xe8ad62294afac42b73e92b643da7d2e7b19a6c29b43738acab98c0a6b52dd9b7 <<< 256 +
      0x72b666b5062077996fe38fdf578f636c522254dd9968dc74e0b4a33f23d83cb7), 0)),
  ((genesisKey 0, .ofNat 0x5d9176ea16c008666e1379549cad23194ff31af8b70851d3750a4fbe40582e56),
    (.ofNat (0x4a004fecef1ad698688e7b22c4c0e21cc1c74cb07f78bcedd47c80b5d47b5e41 <<< 256 +
      0x57576a8812a9c687284fbf5e4d5765671fc9f5de9cba0d2d799830bdfdf006c0), 0)),
  ((genesisKey 0, .ofNat 0x4b3011158c525f4225b3d82a55d80476de023af2f170ed35b2822d06776c2f4b),
    (.ofNat (0x9b4b80f0474706c1196e2706234ce62c100932e68af72e75ff589effb9e08b77 <<< 256 +
      0x6a49f1380fe36710a663ceece609e1916a139d23d0b782ec9458962c63a53e91), 0)),
  ((genesisKey 0, .ofNat 0xdb421ea0a1d8557ee98e277ec3efc303572165bdbfb7e21e31eecad4e0e30c02),
    (.ofNat (0x91b7fd87d25fbe51b76a1ab872e6282d77099676b8a92bd336eb447b2d92938c <<< 256 +
      0x085304660e9ba535d632b0909062d06ddf62e175829ea688b5a5d27304bf8f6a), 1)),
  ((genesisKey 1, .ofNat 0x3bc83319311b7b9600d622baa0309f2e70baa3b8e0359ab7f987a2deda1a8d27),
    (.ofNat (0xa0c1b79789cd2e6d268dc6e5a79cc29a4c48ccf4f18e753994b5f689f65b7809 <<< 256 +
      0x1ab42fe4328c2249111fcfa64eab59ebf559e2acb8d551e181501807b10a8087), 1)),
  ((genesisKey 1, .ofNat 0x91b6ff5dbb93bef59ddb5d0960f53c540a91677586eb557289cda15bb84044b0),
    (.ofNat (0x796d2e6529ef90038e2a56e629ea63007fb9342fbcd0c1f66f27b6b6ce7a887f <<< 256 +
      0x5549503f7e7c508601fea2ded41b4546659484bce402ba42452e1f02fdef6203), 1)),
  ((genesisKey 1, .ofNat 0x5d9176ea16c008666e1379549cad23194ff31af8b70851d3750a4fbe40582e56),
    (.ofNat (0xca67f765a5eb2d253f272a190def837291c0e2c9b010096eac1a8207743f2713 <<< 256 +
      0x0705280237e5f32a687475c26899692321fdd2a00069d8e6d700cedc13d57229), 0)),
  ((genesisKey 1, .ofNat 0x4b3011158c525f4225b3d82a55d80476de023af2f170ed35b2822d06776c2f4b),
    (.ofNat (0x89b37e28d43e353fb2fff883835c010c9f9d782bcb3c9e72feae524f2b37bad3 <<< 256 +
      0x4765104c4501aedda4e33e7453157fad916c145e5741e32c3d6af3c6272b043b), 0)),
  ((genesisKey 1, .ofNat 0xdb421ea0a1d8557ee98e277ec3efc303572165bdbfb7e21e31eecad4e0e30c02),
    (.ofNat (0xc9fd28094d9b2fc301b121f70cc0eafad2f225234a986308df507bac1fd7094b <<< 256 +
      0x2de5628a6bb9dcca8a9b6c95c10d9dda4225b5bd398b8b851a3cc239604ce82e), 1))]

def pairSigner : Signer := .ofGraph pairSignatures

/-- The digests of a chain with these two accounts and two blocks, in each of which they send to each other. -/
def pairHost : Host := Host.ofGraph [
  (toBeBytes 16 0xcf80843b9aca00825208808080018080,
    .ofNat 0x3bc83319311b7b9600d622baa0309f2e70baa3b8e0359ab7f987a2deda1a8d27),
  (toBeBytes 40 0x1b84c5567b126440995d3ed5aaba0565d71e1834604819ff9c17f5e9d5dd078f70beaf8f588b5415 ++
      toBeBytes 24 0x07fed6a642c5ab42dfdf8120a7f639de5122d47a69a8e8d1,
    .ofNat 0xb8a0722ae6cb48cde0b4ae1f1a642f0e3c3af545e7acbd38b07251b3990914f1),
  (toBeBytes 40 0x4d4b6cd1361032ca9bd2aeb9d900aa4d45d9ead80ac9423374c451a7254d07662a3eada2d0fe208b ++
      toBeBytes 24 0x6d257ceb0f064284662e857f57b66b54c198bd310ded36d0,
    .ofNat 0xa95905f8dab9c277715d6fd05050a4f4b3f9338c3472dcc01a87c76a144b3c9c),
  (toBeBytes 40 0xf865943a642f0e3c3af545e7acbd38b07251b3990914f1b84ef84c808829a2241af62c0000a00000 ++
      toBeBytes 40 0x000000000000000000000000000000000000000000000000000000000000a0c5d2460186f7233c92 ++
      toBeBytes 23 0x7e7db2dcc703c0e500b653ca82273b7bfad8045d85a470,
    .ofNat 0xc6ae500f669e43952d4f315ec4865aaf989cceb981921bca2a6efc6a6f9162ee),
  (toBeBytes 40 0xf865943050a4f4b3f9338c3472dcc01a87c76a144b3c9cb84ef84c808829a2241af62c0000a00000 ++
      toBeBytes 40 0x000000000000000000000000000000000000000000000000000000000000a0c5d2460186f7233c92 ++
      toBeBytes 23 0x7e7db2dcc703c0e500b653ca82273b7bfad8045d85a470,
    .ofNat 0x14ae9ec27f191a378406eaa5f0ecdecc138ed0b0f444f7be771f8a3afa68e691),
  (toBeBytes 40 0xf85180a0c6ae500f669e43952d4f315ec4865aaf989cceb981921bca2a6efc6a6f9162ee808080a0 ++
      toBeBytes 40 0x14ae9ec27f191a378406eaa5f0ecdecc138ed0b0f444f7be771f8a3afa68e6918080808080808080 ++
      toBeBytes 3 0x808080,
    .ofNat 0xb40eb14d25a36158beb9c73b9e45eb769f61dadf2a73a8301449cfe61ee4d34d),
  (toBeBytes 40 0xf880a000000000000000000000000000000000000000000000000000000000000000009400000000 ++
      toBeBytes 40 0x00000000000000000000000000000000a0b40eb14d25a36158beb9c73b9e45eb769f61dadf2a73a8 ++
      toBeBytes 40 0x301449cfe61ee4d34da0000000000000000000000000000000000000000000000000000000000000 ++
      toBeBytes 10 0x00008401c9c380800580,
    .ofNat 0xd42a4f1e30554e7542c9afa83cea191a6f10f9f9f7ce24c03ae133f2e9b86089),
  (toBeBytes 40 0xeb80843b9aca00825208945050a4f4b3f9338c3472dcc01a87c76a144b3c9c880de0b6b3a7640000 ++
      toBeBytes 4 0x80018080,
    .ofNat 0x5d9176ea16c008666e1379549cad23194ff31af8b70851d3750a4fbe40582e56),
  (toBeBytes 40 0xeb80843b9aca00825208941a642f0e3c3af545e7acbd38b07251b3990914f1880de0b6b3a7640000 ++
      toBeBytes 4 0x80018080,
    .ofNat 0x91b6ff5dbb93bef59ddb5d0960f53c540a91677586eb557289cda15bb84044b0),
  (toBeBytes 40 0xf882a0d42a4f1e30554e7542c9afa83cea191a6f10f9f9f7ce24c03ae133f2e9b860899400000000 ++
      toBeBytes 40 0x00000000000000000000000000000000a00000000000000000000000000000000000000000000000 ++
      toBeBytes 40 0x000000000000000000a0000000000000000000000000000000000000000000000000000000000000 ++
      toBeBytes 12 0x00008401c9c38082a4101101,
    .ofNat 0x0b555a3b626ab1f257c9c98f2ef7baf1f4db1589476951e25516b94764b0c1a3),
  (toBeBytes 40 0xf86b80843b9aca00825208945050a4f4b3f9338c3472dcc01a87c76a144b3c9c880de0b6b3a76400 ++
      toBeBytes 40 0x008025a04a004fecef1ad698688e7b22c4c0e21cc1c74cb07f78bcedd47c80b5d47b5e41a057576a ++
      toBeBytes 29 0x8812a9c687284fbf5e4d5765671fc9f5de9cba0d2d799830bdfdf006c0,
    .ofNat 0x705d6521f91fafc6abe6f1f16d333d6535a1c8ff055e87b5bdc9ac0b8265c9f8),
  (toBeBytes 40 0xf86b80843b9aca00825208941a642f0e3c3af545e7acbd38b07251b3990914f1880de0b6b3a76400 ++
      toBeBytes 40 0x008026a0796d2e6529ef90038e2a56e629ea63007fb9342fbcd0c1f66f27b6b6ce7a887fa0554950 ++
      toBeBytes 29 0x3f7e7c508601fea2ded41b4546659484bce402ba42452e1f02fdef6203,
    .ofNat 0x322464f3c174a7486cf84cd0c3f6a8fd7b35e336c2224546c617a8cc192c7546),
  (toBeBytes 40 0xf865943a642f0e3c3af545e7acbd38b07251b3990914f1b84ef84c018829a2110184a1b000a00000 ++
      toBeBytes 40 0x000000000000000000000000000000000000000000000000000000000000a0c5d2460186f7233c92 ++
      toBeBytes 23 0x7e7db2dcc703c0e500b653ca82273b7bfad8045d85a470,
    .ofNat 0x4230c33e4dffe8b1fff9b442f1301b5f0f56407b8c8d661d566f7cd77828951c),
  (toBeBytes 40 0xf865943050a4f4b3f9338c3472dcc01a87c76a144b3c9cb84ef84c018829a2110184a1b000a00000 ++
      toBeBytes 40 0x000000000000000000000000000000000000000000000000000000000000a0c5d2460186f7233c92 ++
      toBeBytes 23 0x7e7db2dcc703c0e500b653ca82273b7bfad8045d85a470,
    .ofNat 0xc26d12e8af2beaa97dda7e04c552a0c7b0b4dc17c22915f7f3b9944a03898f4a),
  (toBeBytes 40 0xf85180a04230c33e4dffe8b1fff9b442f1301b5f0f56407b8c8d661d566f7cd77828951c808080a0 ++
      toBeBytes 40 0xc26d12e8af2beaa97dda7e04c552a0c7b0b4dc17c22915f7f3b9944a03898f4a8080808080808080 ++
      toBeBytes 3 0x808080,
    .ofNat 0x78732ccbc917d7d3744dca8aa49594fe5827ed9afe4db0e54fb80e9195d67bdd),
  (toBeBytes 40 0xeb01843b9aca00825208941a642f0e3c3af545e7acbd38b07251b3990914f1880de0b6b3a7640000 ++
      toBeBytes 4 0x80018080,
    .ofNat 0x4b3011158c525f4225b3d82a55d80476de023af2f170ed35b2822d06776c2f4b),
  (toBeBytes 40 0xeb01843b9aca00825208945050a4f4b3f9338c3472dcc01a87c76a144b3c9c880de0b6b3a7640000 ++
      toBeBytes 4 0x80018080,
    .ofNat 0xdb421ea0a1d8557ee98e277ec3efc303572165bdbfb7e21e31eecad4e0e30c02),
  (toBeBytes 40 0xf882a00b555a3b626ab1f257c9c98f2ef7baf1f4db1589476951e25516b94764b0c1a39400000000 ++
      toBeBytes 40 0x00000000000000000000000000000000a00000000000000000000000000000000000000000000000 ++
      toBeBytes 40 0x000000000000000000a0000000000000000000000000000000000000000000000000000000000000 ++
      toBeBytes 12 0x00008401c9c38082a4101d02,
    .ofNat 0x065ea60a9cb19da11e573d9b43b2a4581a9254f6a58bba5b2a5f0fed5d8291fc),
  (toBeBytes 40 0xf86b01843b9aca00825208941a642f0e3c3af545e7acbd38b07251b3990914f1880de0b6b3a76400 ++
      toBeBytes 40 0x008025a089b37e28d43e353fb2fff883835c010c9f9d782bcb3c9e72feae524f2b37bad3a0476510 ++
      toBeBytes 29 0x4c4501aedda4e33e7453157fad916c145e5741e32c3d6af3c6272b043b,
    .ofNat 0xd90640f3ca53cf2b07c93d16c501fcab9e9e74eee0e6c6d1f0a07847b2ad87b0),
  (toBeBytes 40 0xf86b01843b9aca00825208945050a4f4b3f9338c3472dcc01a87c76a144b3c9c880de0b6b3a76400 ++
      toBeBytes 40 0x008026a091b7fd87d25fbe51b76a1ab872e6282d77099676b8a92bd336eb447b2d92938ca0085304 ++
      toBeBytes 29 0x660e9ba535d632b0909062d06ddf62e175829ea688b5a5d27304bf8f6a,
    .ofNat 0xf95bcb834772db050baa763518f0498303e594196e6595378a8f1e0ff2db74a2),
  (toBeBytes 40 0xf865943a642f0e3c3af545e7acbd38b07251b3990914f1b84ef84c028829a1fde813176000a00000 ++
      toBeBytes 40 0x000000000000000000000000000000000000000000000000000000000000a0c5d2460186f7233c92 ++
      toBeBytes 23 0x7e7db2dcc703c0e500b653ca82273b7bfad8045d85a470,
    .ofNat 0x5ac0620e313e01b42ddb6d5835db31a2f29f269ea3d410a0f615dc2654712739),
  (toBeBytes 40 0xf865943050a4f4b3f9338c3472dcc01a87c76a144b3c9cb84ef84c028829a1fde813176000a00000 ++
      toBeBytes 40 0x000000000000000000000000000000000000000000000000000000000000a0c5d2460186f7233c92 ++
      toBeBytes 23 0x7e7db2dcc703c0e500b653ca82273b7bfad8045d85a470,
    .ofNat 0x5cae2680b1e8c792a78d5e65310d9d2042ad92900dcc1dbdbc2e392f44843e50),
  (toBeBytes 40 0xf85180a05ac0620e313e01b42ddb6d5835db31a2f29f269ea3d410a0f615dc2654712739808080a0 ++
      toBeBytes 40 0x5cae2680b1e8c792a78d5e65310d9d2042ad92900dcc1dbdbc2e392f44843e508080808080808080 ++
      toBeBytes 3 0x808080,
    .ofNat 0x118f6a52c214399d1167dc25e4efb9ad5ae20acad43c57a1242245d138979c22)]
  (pairSignatures.map fun ((key, prehash), signature, recoveryId) =>
    ((prehash, signature.bytes, recoveryId), (pairPublicKeys.lookup key).getD .zero))

def pairOptions : GenesisOptions := ⟨1, 2, 3000000000000000000, 5⟩

theorem setup_agrees_pair : ∃ config builder, ∃ genesis : Genesis,
    setupClient pairHost pairSigner pairOptions = .ok (config, builder) ∧
    setupNode pairHost pairSigner pairOptions false = .ok (some (genesis.processor pairHost)) ∧
    config.accounts.map GenesisAccount.address =
      [.ofNat 0x1a642f0e3c3af545e7acbd38b07251b3990914f1, .ofNat 0x5050a4f4b3f9338c3472dcc01a87c76a144b3c9c] ∧
    (genesis.processor pairHost).chainHead.hash =
      .ofNat 0xd42a4f1e30554e7542c9afa83cea191a6f10f9f9f7ce24c03ae133f2e9b86089 := by
  have starts : ((setupClient pairHost pairSigner pairOptions).toOption.map fun started =>
      (started.1.accounts.map GenesisAccount.address, started.2.currentHead)) =
        some ([.ofNat 0x1a642f0e3c3af545e7acbd38b07251b3990914f1, .ofNat 0x5050a4f4b3f9338c3472dcc01a87c76a144b3c9c],
          (0, .ofNat 0xd42a4f1e30554e7542c9afa83cea191a6f10f9f9f7ce24c03ae133f2e9b86089)) := by
    decide +kernel
  obtain ⟨⟨config, builder⟩, started, same⟩ := Option.map_eq_some_iff.mp starts
  obtain ⟨addresses, head⟩ := Prod.mk.inj same
  rw [Outcome.toOption_eq_some] at started
  obtain ⟨genesis, node, _, sameHead, _⟩ :=
    (setup_agrees pairHost pairSigner pairOptions pairHost.iteration).2.2 config builder started
  exact ⟨config, builder, genesis, started, node, addresses, congrArg Prod.snd (sameHead.symm.trans head)⟩

end Sample

end MiniEthNode
