import MiniEthNode.Networking.Wire

namespace MiniEthNode
open Rust

section Talk

/-- A call that has these turns with the node and comes back with a value. The stream is a part of the state. -/
def Talks {σ ε α : Type} (x : Exec σ ε α) (put put' : FramedStream → σ) (turns : List ClientTurn) (value : α) : Prop :=
  ∀ written rest, x (put ⟨written, [], delivered (turns.filterMap ClientTurn.answer) ++ rest⟩) =
    .ok (value, put' ⟨written ++ turns.map ClientTurn.message, [], rest⟩)

theorem Client.onBuilder_of {α : Type} {x : Exec BlockBuilder BuilderError α} {builder builder' : BlockBuilder}
    {value : α} {framed : FramedStream} (ran : x builder = .ok (value, builder')) :
    Client.onBuilder x ⟨framed, builder⟩ = .ok (value, ⟨framed, builder'⟩) := by
  simp only [onBuilder, Exec.mapErr, Exec.focus, ran]

namespace Talks
variable {σ ε α β : Type} {put between put' : FramedStream → σ} {turns later : List ClientTurn} {value : α}

theorem of_pure (value : α) (put : FramedStream → σ) : Talks (pure value : Exec σ ε α) put put [] value := by
  intro written rest
  rw [List.map_nil, List.append_nil]
  rfl

theorem bind {x : Exec σ ε α} {f : α → Exec σ ε β} {result : β} (first : Talks x put between turns value)
    (second : Talks (f value) between put' later result) : Talks (x >>= f) put put' (turns ++ later) result := by
  intro written rest
  rw [List.filterMap_append, delivered_append, List.append_assoc, Exec.bind_ok (first written _), second,
    List.map_append, List.append_assoc]

/-- A call that does not touch the stream. -/
theorem silent {x : Exec σ ε α} (ran : ∀ framed, x (put framed) = .ok (value, put' framed)) :
    Talks x put put' [] value := by
  intro written rest
  rw [ran, List.map_nil, List.append_nil]
  rfl

theorem lift {x : Outcome ε α} (ran : x = .ok value) : Talks (Exec.lift x) put put [] value :=
  silent fun framed => by rw [ran, Exec.lift_ok]

theorem onFramed {x : Exec FramedStream ClientError α} (talks : Talks x id id turns value) (builder : BlockBuilder) :
    Talks (Client.onFramed x) (⟨·, builder⟩) (⟨·, builder⟩) turns value := by
  intro written rest
  have ran : x ⟨written, [], delivered (turns.filterMap ClientTurn.answer) ++ rest⟩ = _ := talks written rest
  simp only [Client.onFramed, Exec.mapErr, Exec.focus, ran]
  rfl

theorem onBuilder {x : Exec BlockBuilder BuilderError α} {builder builder' : BlockBuilder}
    (ran : x builder = .ok (value, builder')) :
    Talks (Client.onBuilder x) (⟨·, builder⟩) (⟨·, builder'⟩) [] value :=
  silent fun _ => Client.onBuilder_of ran

end Talks

theorem queryAccountState_talks (snapshot : AccountSnapshot) :
    Talks (queryAccountState snapshot.address) id id [.asked snapshot] snapshot := by
  intro written rest
  refine (queryAccountState_message (fun _ member => absurd member List.not_mem_nil) rfl).trans ?_
  simp [FramedStream.exchanged, ClientTurn.message, delivered, ClientTurn.answer]

theorem send_talks (block : Block) :
    Talks (FramedStream.send (.newBlock block (block.header.gasUsed.setWidth 128))) id id [.submitted block] () :=
  fun _ _ => rfl

theorem flush_talks : Talks FramedStream.flush id id [] () := by
  intro written rest
  rw [List.map_nil, List.append_nil]
  rfl

/-- A round of queries in which no nonce is behind. -/
theorem pollNonces_talks {expected : List (Address × U64)} {snapshots : List AccountSnapshot}
    (caught : CaughtUp expected snapshots) :
    Talks (pollNonces expected true) id id (snapshots.map ClientTurn.asked) true := by
  induction caught with
  | nil => exact .of_pure _ _
  | @cons entry snapshot expected snapshots here _ ih =>
    obtain ⟨same, level⟩ := here
    have asked := queryAccountState_talks snapshot
    rw [same] at asked
    refine asked.bind ?_
    rw [if_neg (BitVec.not_lt.mpr level)]
    exact ih

/-- The first round is enough. -/
theorem waitForSenderNonces_talks {expected : List (Address × U64)} {snapshots : List AccountSnapshot}
    (caught : CaughtUp expected snapshots) (rounds : Nat) :
    Talks (waitForSenderNonces expected rounds) id id (snapshots.map ClientTurn.asked) () := by
  have polled := pollNonces_talks caught
  rw [← List.append_nil (snapshots.map ClientTurn.asked)]
  cases rounds with
  | zero => exact polled.bind (.of_pure () id)
  | succ rounds => exact polled.bind (.of_pure () id)

end Talk

section Gather

/-- The account at an index of the genesis. -/
def GenesisConfig.account (config : GenesisConfig) (index : Nat) : GenesisAccount :=
  config.accounts.getD index ⟨FixedBytes.zero, 0⟩

/-- The sender of the transaction at a position; the positions of a block are consecutive. -/
def GenesisConfig.senderAt (config : GenesisConfig) (position : Nat) : Address :=
  (config.account (position % config.accounts.length)).address

/-- A transfer to the next account. -/
def GenesisConfig.specAt (config : GenesisConfig) (position : Nat) : TransactionSpec where
  senderIndex := position % config.accounts.length
  recipient := (config.account ((position % config.accounts.length + 1) % config.accounts.length)).address
  value := 1000000000000000000
  gasLimit := 21000

/-- What the client collects for the transactions at some positions, if it is told these accounts. -/
def Gathered.extend (config : GenesisConfig) (told : Address → AccountSnapshot) (gathered : Gathered)
    (positions : List Nat) : Gathered where
  transactionSpecs := gathered.transactionSpecs ++ positions.map config.specAt
  accountSnapshots := HashMap.insertAll gathered.accountSnapshots
    (positions.map fun position => (config.senderAt position, told (config.senderAt position)))
  expectedSenderNonces := gathered.expectedSenderNonces ++
    positions.map fun position => (config.senderAt position, (told (config.senderAt position)).nonce + 1)

theorem GenesisConfig.account_found (config : GenesisConfig) {index : Nat} (inside : index < config.accounts.length) :
    config.accounts[index]? = some (config.account index) := by
  rw [account, List.getD_eq_getElem?_getD, List.getElem?_eq_getElem inside]
  rfl

theorem GenesisConfig.index_account {ε : Type} {config : GenesisConfig} {i : Nat} (inside : i < config.accounts.length) :
    (index config.accounts i : Outcome ε GenesisAccount) = .ok (config.account i) := by
  rw [index, config.account_found inside]

theorem gatherTransactions_talks {host : Host} {config : GenesisConfig} {told : Address → AccountSnapshot}
    (own : ∀ address, (told address).address = address) (accounts : 0 < config.accounts.length)
    {blockIndex : Nat} {indices : List Nat} (fits : ∀ index ∈ indices, blockIndex + index < 2 ^ 64)
    (nonces : ∀ position, (told (config.senderAt position)).nonce.toNat + 1 < 2 ^ 64) (gathered : Gathered) :
    Talks (gatherTransactions host config config.accounts.length blockIndex indices gathered) id id
      ((indices.map (blockIndex + ·)).map fun position => .asked (told (config.senderAt position)))
      (gathered.extend config told (indices.map (blockIndex + ·))) := by
  induction indices generalizing gathered with
  | nil =>
    have same : gathered.extend config told [] = gathered := by simp [Gathered.extend]
    rw [List.map_nil, same]
    exact .of_pure _ _
  | cons index rest ih =>
    obtain ⟨here, fits⟩ := List.forall_mem_cons.mp fits
    have position : (BitVec.ofNat 64 blockIndex + BitVec.ofNat 64 index).toNat = blockIndex + index := by
      bv_omega
    have snapshot := queryAccountState_talks (told (config.senderAt (blockIndex + index)))
    rw [own] at snapshot
    have room := nonces (blockIndex + index)
    have expected : checkedAdd (told (config.senderAt (blockIndex + index))).nonce 1 =
        some ((told (config.senderAt (blockIndex + index))).nonce + 1) := checkedAdd_eq_some.mpr (by bv_omega)
    refine (Talks.lift (add_of_fits fun _ => by bv_omega)).bind ?_
    dsimp only
    rw [position]
    refine (Talks.lift (GenesisConfig.index_account (Nat.mod_lt _ accounts))).bind ?_
    refine (Talks.lift (GenesisConfig.index_account (Nat.mod_lt _ accounts))).bind ?_
    refine snapshot.bind ?_
    refine (Talks.lift (Outcome.okOr_eq_ok.mpr expected)).bind ?_
    have same : gathered.extend config told ((blockIndex + index) :: rest.map (blockIndex + ·)) =
        Gathered.extend config told (gathered.extend config told [blockIndex + index]) (rest.map (blockIndex + ·)) := by
      simp [Gathered.extend]
    rw [List.map_cons, same]
    exact ih fits _

end Gather

section Node

/-- The account that the processor tells for an address. -/
def BlockProcessor.snapshot (processor : BlockProcessor) (address : Address) : AccountSnapshot :=
  let account := (processor.pipeline.provider.state.lookup address).getD Account.default
  ⟨address, account.nonce, account.balance⟩

/-- A processor that works off the turns of a client in order and tells it what it has. -/
inductive Honest (host : Host) (peerId : PeerId) : BlockProcessor → List ClientTurn → BlockProcessor → Prop
  | nil {processor} : Honest host peerId processor [] processor
  | asked {processor after address rest} : Present processor address → Honest host peerId processor rest after →
      Honest host peerId processor (.asked (processor.snapshot address) :: rest) after
  | submitted {processor between after block delivery rest} :
      deliver host processor ⟨block, peerId⟩ = some (delivery, between) → Honest host peerId between rest after →
      Honest host peerId processor (.submitted block :: rest) after

namespace Honest
variable {host : Host} {peerId : PeerId} {processor between after : BlockProcessor} {turns later : List ClientTurn}

theorem trans (first : Honest host peerId processor turns between) (second : Honest host peerId between later after) :
    Honest host peerId processor (turns ++ later) after := by
  induction first with
  | nil => exact second
  | asked present _ ih => exact .asked present (ih second)
  | submitted delivered _ ih => exact .submitted delivered (ih second)

theorem asks {addresses : List Address} (present : ∀ address ∈ addresses, Present processor address) :
    Honest host peerId processor (addresses.map fun address => .asked (processor.snapshot address)) processor := by
  induction addresses with
  | nil => exact .nil
  | cons address rest ih =>
    obtain ⟨here, present⟩ := List.forall_mem_cons.mp present
    exact .asked here (ih present)

end Honest

theorem BlockProcessor.snapshot_nonce (processor : BlockProcessor) (address : Address) :
    (processor.snapshot address).nonce.toNat = nonceOf processor.pipeline.provider.state address :=
  nonceOf_default _ _

theorem BlockProcessor.snapshot_balance (processor : BlockProcessor) (address : Address) :
    (processor.snapshot address).balance.toNat = balanceOf processor.pipeline.provider.state address :=
  balanceOf_default _ _

end Node

/-- What one transfer of the client costs its sender. -/
def transferCost : U128 := 1000021000000000000

/-- What the client signs with its keys: the transaction that tells an address, and transfers to its accounts. -/
inductive ClientOptions.Asks (host : Host) (signer : Signer) (options : ClientOptions) : Transaction → Prop
  | address : options.Asks host signer dummyTx
  | transfer {i : UInt8} {account : GenesisAccount} {nonce : U64} (member : i ∈ options.indices)
      (derived : genesisAccount host signer options.toGenesisOptions (genesisKey i) = .ok account)
      (early : nonce.toNat < options.blockCount.toNat) :
      options.Asks host signer (.legacy nonce BlockBuilder.gasPrice 21000 (some account.address) 1000000000000000000 [])

/-- Options with which nothing keeps the client from its end. -/
structure Feasible (host : Host) (signer : Signer) (options : ClientOptions) : Prop where
  inOrder : options.outOfOrder = false
  accounts : 0 < options.genesisAccountCount.toNat
  senders : options.transactionsPerBlock.toNat ≤ options.genesisAccountCount.toNat
  few : options.transactionsPerBlock.toNat ≤ 100
  chainId : 2 * options.chainId.toNat + 36 < 2 ^ 64
  keys : ∀ i ∈ options.indices, ∃ publicKey,
    signer.Serves host options.chainId (options.Asks host signer) (genesisKey i) publicKey
  distinct : ∀ i ∈ options.indices, ∀ j ∈ options.indices, ∀ account,
    genesisAccount host signer options.toGenesisOptions (genesisKey i) = .ok account →
    genesisAccount host signer options.toGenesisOptions (genesisKey j) = .ok account → i = j
  funds : options.blockCount.toNat * transferCost.toNat ≤ options.genesisBalance.toNat
  supply : options.genesisAccountCount.toNat * options.genesisBalance.toNat < 2 ^ 128
  time : options.genesisTimestamp.toNat + 12 * options.blockCount.toNat < 2 ^ 64

theorem Feasible.signs {host : Host} {signer : Signer} {options : ClientOptions}
    (feasible : Feasible host signer options) {i : UInt8} (member : i ∈ options.indices) {transaction : Transaction}
    (asks : options.Asks host signer transaction) :
    ∃ signed, sign host signer transaction (genesisKey i).bytes options.chainId = .ok signed := by
  obtain ⟨_, serves⟩ := feasible.keys i member
  exact serves.sign feasible.chainId asks

theorem Feasible.recovers {host : Host} {signer : Signer} {options : ClientOptions}
    (feasible : Feasible host signer options) :
    SignaturesRecover host signer (options.indices.map genesisKey) options.chainId := by
  intro key member
  obtain ⟨i, among, rfl⟩ := List.mem_map.mp member
  obtain ⟨publicKey, serves⟩ := feasible.keys i among
  exact ⟨addressOf host publicKey, fun _ _ => recoverSender_sign serves.inverts feasible.chainId⟩

theorem transfer_maxCost (nonce : U64) (recipient : Address) :
    (Transaction.legacy nonce BlockBuilder.gasPrice 21000 (some recipient) 1000000000000000000 []).maxCost =
      .ok transferCost := by
  rfl

theorem transfer_costOf (baseFeePerGas : U128) (nonce : U64) (recipient : Address) :
    costOf baseFeePerGas
      (.legacy nonce BlockBuilder.gasPrice 21000 (some recipient) 1000000000000000000 []) = transferCost.toNat := by
  change BlockBuilder.gasPrice.toNat * (21000 : U64).toNat + (1000000000000000000 : U128).toNat = _
  decide

section Rounds
variable {host : Host} {signer : Signer} {options : ClientOptions} {accounts : List GenesisAccount}

/-- What the client has made of its options. -/
def ClientOptions.config (options : ClientOptions) (accounts : List GenesisAccount) : GenesisConfig :=
  ⟨options.chainId, accounts, options.genesisTimestamp⟩

/-- A client and a node after some blocks. Each block costs an account one transfer at most. -/
structure Ready (host : Host) (options : ClientOptions) (accounts : List GenesisAccount) (builder : BlockBuilder)
    (processor : BlockProcessor) (blockIndex : Nat) : Prop where
  inStep : InStep host (options.genesis host accounts) (options.indices.map genesisKey) builder processor
  sameHead : builder.currentHead = (processor.chainHead.number, processor.chainHead.hash)
  gasLimit : builder.genesisGasLimit = gasLimitPerBlock
  height : processor.chainHead.number.toNat = blockIndex
  present : ∀ account ∈ accounts, Present processor account.address
  nonces : ∀ account ∈ accounts, nonceOf processor.pipeline.provider.state account.address ≤ blockIndex
  balances : ∀ account ∈ accounts, options.genesisBalance.toNat ≤
    balanceOf processor.pipeline.provider.state account.address + blockIndex * transferCost.toNat

theorem Feasible.length (derived : Derived host signer options.toGenesisOptions accounts) :
    accounts.length = options.genesisAccountCount.toNat := by
  rw [← derived.length_eq, GenesisOptions.indices, List.length_map, List.length_range]

variable {builder : BlockBuilder} {processor : BlockProcessor} {blockIndex : Nat}

theorem senderAt_mem (options : ClientOptions) (nonempty : 0 < accounts.length) (position : Nat) :
    ∃ account ∈ accounts, account.address = (options.config accounts).senderAt position := by
  have found := (options.config accounts).account_found (Nat.mod_lt position nonempty)
  exact ⟨_, List.mem_of_getElem? found, rfl⟩

/-- The builder has the key of each account. -/
theorem Ready.senderOf (derived : Derived host signer options.toGenesisOptions accounts) (nonempty : 0 < accounts.length)
    (ready : Ready host options accounts builder processor blockIndex) (position : Nat) :
    ∃ i ∈ options.indices, builder.state.signingKeys[position % accounts.length]? = some (genesisKey i) ∧
      builder.senderAddress host signer (genesisKey i) = .ok ((options.config accounts).senderAt position) := by
  have found := (options.config accounts).account_found (Nat.mod_lt position nonempty)
  obtain ⟨i, atIndex, made⟩ := derived.account found
  refine ⟨i, List.mem_of_getElem? atIndex, ?_, genesisAccount_sender made ready.inStep.chainId⟩
  rw [ready.inStep.keys, List.getElem?_map]
  exact congrArg (Option.map genesisKey) atIndex

/-- The positions of the transactions of a block. -/
def ClientOptions.positions (options : ClientOptions) (blockIndex : Nat) : List Nat :=
  (List.range options.transactionsPerBlock.toNat).map (blockIndex + ·)

/-- The senders of the transactions of a block. -/
def ClientOptions.senders (options : ClientOptions) (accounts : List GenesisAccount) (blockIndex : Nat) : List Address :=
  (options.positions blockIndex).map (options.config accounts).senderAt

/-- What the client collects for a block. -/
def ClientOptions.gathered (options : ClientOptions) (accounts : List GenesisAccount) (processor : BlockProcessor)
    (blockIndex : Nat) : Gathered :=
  Gathered.empty.extend (options.config accounts) processor.snapshot (options.positions blockIndex)

theorem lookup_gathered (options : ClientOptions) (accounts : List GenesisAccount) (processor : BlockProcessor)
    (blockIndex : Nat) (address : Address) :
    (options.gathered accounts processor blockIndex).accountSnapshots.lookup address =
      if address ∈ options.senders accounts blockIndex then some (processor.snapshot address) else none := by
  have entries : (options.positions blockIndex).map (fun position => ((options.config accounts).senderAt position,
      processor.snapshot ((options.config accounts).senderAt position))) =
        (options.senders accounts blockIndex).map fun address => (address, processor.snapshot address) := by
    rw [ClientOptions.senders, List.map_map]
    rfl
  rw [ClientOptions.gathered, Gathered.extend, entries]
  exact HashMap.lookup_insertAll_map _ _ _

theorem gathered_specs : (options.gathered accounts processor blockIndex).transactionSpecs =
    (options.positions blockIndex).map (options.config accounts).specAt :=
  List.nil_append _

/-- The senders of a block are accounts of the genesis. -/
theorem senders_listed (nonempty : 0 < accounts.length) {address : Address}
    (member : address ∈ options.senders accounts blockIndex) : ∃ account ∈ accounts, account.address = address := by
  obtain ⟨position, _, rfl⟩ := List.mem_map.mp member
  exact senderAt_mem options nonempty position

/-- Consecutive positions have senders of their own, if there are accounts enough. -/
theorem ClientOptions.senders_nodup (nodup : (accounts.map GenesisAccount.address).Nodup)
    (enough : options.transactionsPerBlock.toNat ≤ accounts.length) : (options.senders accounts blockIndex).Nodup := by
  rw [senders, positions, List.map_map]
  refine List.Nodup.map_on (fun t inside t' inside' same => ?_) List.nodup_range
  rw [List.mem_range] at inside inside'
  have nonempty : 0 < accounts.length := by omega
  have found (position : Nat) : (accounts.map GenesisAccount.address)[position % accounts.length]? =
      some ((options.config accounts).senderAt position) := by
    rw [List.getElem?_map]
    exact congrArg (Option.map GenesisAccount.address)
      ((options.config accounts).account_found (Nat.mod_lt position nonempty))
  have bound : (blockIndex + t) % accounts.length < (accounts.map GenesisAccount.address).length := by
    rw [List.length_map]
    exact Nat.mod_lt _ nonempty
  have equal := (List.getElem?_inj bound nodup).mp ((found _).trans ((congrArg some same).trans (found _).symm))
  have equal : t % accounts.length = t' % accounts.length := Nat.ModEq.add_left_cancel' blockIndex equal
  rwa [Nat.mod_eq_of_lt (by omega), Nat.mod_eq_of_lt (by omega)] at equal

variable (feasible : Feasible host signer options) (derived : Derived host signer options.toGenesisOptions accounts)
  (ready : Ready host options accounts builder processor blockIndex) (inside : blockIndex < options.blockCount.toNat)

include derived ready in
theorem Ready.known (nonempty : 0 < accounts.length) (position : Nat) :
    builder.senderOf host signer ((options.config accounts).specAt position) =
      .ok ((options.config accounts).senderAt position) := by
  obtain ⟨i, _, known, recovered⟩ := ready.senderOf derived nonempty position
  exact Outcome.bind_eq_ok.mpr ⟨_, Outcome.okOr_eq_ok.mpr known, recovered⟩

include feasible derived ready inside in
/-- Every transaction of a block can be built: its sender has a key and the funds. -/
theorem Ready.builds {spec : TransactionSpec}
    (listed : spec ∈ (options.gathered accounts processor blockIndex).transactionSpecs) :
    ∃ signed, builder.buildSignedTransaction host signer spec
      (options.gathered accounts processor blockIndex).accountSnapshots = .ok signed := by
  have nonempty : 0 < accounts.length := Feasible.length derived ▸ feasible.accounts
  rw [gathered_specs] at listed
  obtain ⟨position, member, rfl⟩ := List.mem_map.mp listed
  obtain ⟨i, member', known, recovered⟩ := ready.senderOf derived nonempty position
  have sends : (options.config accounts).senderAt position ∈ options.senders accounts blockIndex :=
    List.mem_map_of_mem member
  have found := lookup_gathered options accounts processor blockIndex ((options.config accounts).senderAt position)
  rw [if_pos sends] at found
  obtain ⟨account, listed, same⟩ := senderAt_mem options nonempty position
  have balance := ready.balances account listed
  rw [same, ← BlockProcessor.snapshot_balance] at balance
  have funds := feasible.funds
  have share : (blockIndex + 1) * transferCost.toNat ≤ options.blockCount.toNat * transferCost.toNat :=
    Nat.mul_le_mul_right _ inside
  rw [Nat.add_mul, Nat.one_mul] at share
  have covered : ¬ transferCost > (processor.snapshot ((options.config accounts).senderAt position)).balance := by
    refine BitVec.not_lt.mpr (BitVec.le_def.mpr ?_)
    omega
  have nonce := ready.nonces account listed
  rw [same, ← BlockProcessor.snapshot_nonce] at nonce
  obtain ⟨j, atIndex, made⟩ := derived.account
    ((options.config accounts).account_found (Nat.mod_lt (position % accounts.length + 1) nonempty))
  obtain ⟨signed, signs⟩ := feasible.signs member'
    (.transfer (List.mem_of_getElem? atIndex) made (nonce.trans_lt inside))
  refine ⟨signed, Outcome.bind_eq_ok.mpr ⟨_, Outcome.okOr_eq_ok.mpr known, Outcome.bind_eq_ok.mpr ⟨_, recovered,
    Outcome.bind_eq_ok.mpr ⟨_, Outcome.okOr_eq_ok.mpr found, Outcome.bind_eq_ok.mpr ⟨transferCost,
      Outcome.mapErr_eq_ok.mpr (transfer_maxCost _ _), ?_⟩⟩⟩⟩⟩
  rw [if_neg covered, ready.inStep.chainId]
  exact Outcome.mapErr_eq_ok.mpr signs

include feasible derived ready inside in
theorem Ready.round : Round host signer builder processor
    ⟨(options.gathered accounts processor blockIndex).transactionSpecs⟩
    (options.gathered accounts processor blockIndex).accountSnapshots := by
  have length := Feasible.length derived
  have nonempty : 0 < accounts.length := length ▸ feasible.accounts
  have time := feasible.time
  have few := feasible.few
  have known := ready.known derived nonempty
  have senders : (options.senders accounts blockIndex).Nodup :=
    options.senders_nodup (derived.addresses_nodup feasible.distinct) (length ▸ feasible.senders)
  have count : (options.positions blockIndex).length = options.transactionsPerBlock.toNat := by
    rw [ClientOptions.positions, List.length_map, List.length_range]
  rw [gathered_specs]
  refine ⟨ready.sameHead, fun address snapshot found => ?_, ?_, ?_, ?_, fun spec listed sender sent => ?_⟩
  · rw [lookup_gathered] at found
    split at found
    · rename_i member
      cases found
      obtain ⟨account, listed, rfl⟩ := senders_listed nonempty member
      obtain ⟨held, present⟩ := Option.isSome_iff_exists.mp (ready.present account listed)
      refine ⟨held, Outcome.okOr_eq_ok.mpr present, ?_, ?_⟩
      · rw [BlockProcessor.snapshot, present]
        rfl
      · rw [BlockProcessor.snapshot, present]
        rfl
    · cases found
  · rw [List.pairwise_map]
    rw [ClientOptions.senders, List.Nodup, List.pairwise_map] at senders
    refine senders.imp fun {first second} apart sender sender' sent sent' => ?_
    cases (known first).symm.trans sent
    cases (known second).symm.trans sent'
    exact apart
  · rw [List.length_map, count]
    exact few
  · have each : (fun spec : TransactionSpec => spec.gasLimit.toNat) ∘ (options.config accounts).specAt =
        fun _ => 21000 := rfl
    rw [ready.gasLimit, List.map_map, each, List.map_const', List.sum_replicate_nat, count]
    change _ ≤ 30000000
    omega
  · obtain ⟨position, _, rfl⟩ := List.mem_map.mp listed
    cases (known position).symm.trans sent
    obtain ⟨account, listed, same⟩ := senderAt_mem options nonempty position
    have nonce := ready.nonces account listed
    rw [same] at nonce
    omega

include feasible derived in
theorem Feasible.supply_fits : totalBalance (options.genesis host accounts).accounts < 2 ^ 128 := by
  have bound : totalBalance (fundedState accounts) ≤ _ :=
    totalBalance_fundedState_le fun account member => derived.balance member
  rw [Feasible.length derived] at bound
  exact bound.trans_lt feasible.supply

include feasible derived ready inside in
theorem Ready.generates : ∃ block builder', BlockBuilder.generateBlock host signer
    ⟨(options.gathered accounts processor blockIndex).transactionSpecs⟩
    (options.gathered accounts processor blockIndex).accountSnapshots builder = .ok (block, builder') := by
  have round := ready.round feasible derived inside
  have time := feasible.time
  have height := ready.height
  have sameNumber : builder.state.currentNumber = processor.chainHead.number := congrArg Prod.fst ready.sameHead
  have genesisTimestamp : builder.state.genesisTimestamp = options.genesisTimestamp := ready.inStep.genesisTimestamp
  refine BlockBuilder.generateBlock_of_each (fun spec listed => ready.builds feasible derived inside listed)
    (round.gas.trans_lt builder.genesisGasLimit.isLt) ?_
  rw [genesisTimestamp, sameNumber, height]
  omega

/-- Each transaction of the client costs the same. -/
theorem built_costs {config : GenesisConfig} {positions : List Nat} {snapshots : HashMap Address AccountSnapshot}
    {transactions : List SignedTransaction} {baseFeePerGas : U128}
    (each : List.Forall₂ (fun spec signed => builder.buildSignedTransaction host signer spec snapshots = .ok signed)
      (positions.map config.specAt) transactions) :
    ∀ signedTx ∈ transactions, costOf baseFeePerGas signedTx.transaction = transferCost.toNat := by
  intro signedTx member
  rw [List.forall₂_map_left_iff] at each
  obtain ⟨i, inside, rfl⟩ := List.getElem_of_mem member
  have built := each.get (each.length_eq ▸ inside) inside
  obtain ⟨key, sender, snapshot, cost, built⟩ := BlockBuilder.buildSignedTransaction_ok built
  obtain ⟨_, _, _, _, _, _, _, _, _, transaction⟩ := sign_ok built.signed
  exact (congrArg _ transaction).trans (transfer_costOf _ _ _)

include feasible derived ready inside in
/-- The node takes the block, and the client can go on. -/
theorem Ready.delivers {block : Block} {builder' : BlockBuilder}
    (generated : BlockBuilder.generateBlock host signer
      ⟨(options.gathered accounts processor blockIndex).transactionSpecs⟩
      (options.gathered accounts processor blockIndex).accountSnapshots builder = .ok (block, builder'))
    (peerId : PeerId) : ∃ delivery processor', deliver host processor ⟨block, peerId⟩ = some (delivery, processor') ∧
      Ready host options accounts builder' processor' (blockIndex + 1) ∧
      ∀ address ∈ options.senders accounts blockIndex, nonceOf processor'.pipeline.provider.state address =
        nonceOf processor.pipeline.provider.state address + 1 := by
  have nonempty : 0 < accounts.length := Feasible.length derived ▸ feasible.accounts
  have round := ready.round feasible derived inside
  have difficulty : host.overflowChecks = true → (options.genesis host accounts).totalDifficulty.toNat ≤ 2 ^ 64 :=
    fun _ => by
      change (0 : U128).toNat ≤ _
      simp
  have recovers : SignaturesRecover host signer (options.indices.map genesisKey) (options.genesis host accounts).chainId :=
    feasible.recovers
  have supply := feasible.supply_fits derived
  have next := ready.inStep.round recovers supply difficulty round generated peerId
  obtain ⟨processor', parent, senders, output, state, totalDifficulty, delivered, inStep, ledger, commit, known, nodup⟩ :=
    next
  obtain ⟨each, -, -, -, number, -, rfl⟩ := BlockBuilder.generateBlock_ok generated
  dsimp only at each
  rw [gathered_specs] at each
  have same : senders = options.senders accounts blockIndex := by
    have mapped : (options.gathered accounts processor blockIndex).transactionSpecs.map (builder.senderOf host signer) =
        (options.senders accounts blockIndex).map .ok := by
      rw [gathered_specs, ClientOptions.senders, List.map_map, List.map_map]
      exact List.map_congr_left fun position _ => ready.known derived nonempty position
    exact List.map_injective_iff.mpr (fun _ _ equal => Outcome.ok.inj equal) (known.symm.trans mapped)
  have after : processor'.pipeline.provider.state = state := congrArg (·.provider.state) ledger
  have head : processor'.chainHead = ⟨block.header.number, headerHash host block.header, totalDifficulty⟩ :=
    congrArg (·.chainHead) ledger
  have nonces (address : Address) : nonceOf processor'.pipeline.provider.state address =
      nonceOf processor.pipeline.provider.state address + senders.count address := by
    rw [after]
    exact commit.nonces address
  refine ⟨_, processor', delivered, ⟨inStep, ?_, ready.gasLimit, ?_, ?_, ?_, ?_⟩, ?_⟩
  · rw [head]
    rfl
  · have sameNumber : builder.state.currentNumber = processor.chainHead.number := congrArg Prod.fst ready.sameHead
    rw [sameNumber, ready.height] at number
    rw [head]
    exact number.symm
  · intro account listed
    rw [Present, after]
    exact commit.present (ready.present account listed)
  · intro account listed
    have before := ready.nonces account listed
    have once := List.nodup_iff_count_le_one.mp nodup account.address
    rw [nonces]
    omega
  · intro account listed
    have before := ready.balances account listed
    have paid := commit.balance_ge nodup (built_costs each) account.address
    rw [after, Nat.add_mul, Nat.one_mul]
    change balanceOf processor.pipeline.provider.state account.address ≤ _ at paid
    omega
  · intro address member
    rw [nonces, nodup.count, if_pos (same ▸ member)]

include feasible derived ready inside in
/-- The client gets one block through: it asks for the accounts, its block is committed, and the accounts have moved. -/
theorem Ready.sendBlock (rounds : Nat) (peerId : PeerId) : ∃ turns builder' processor',
    Honest host peerId processor turns processor' ∧
    Talks (MiniEthNode.sendBlock host signer options (options.config accounts) rounds blockIndex)
      (⟨·, builder⟩) (⟨·, builder'⟩) turns () ∧
    Ready host options accounts builder' processor' (blockIndex + 1) := by
  have length := Feasible.length derived
  have nonempty : 0 < accounts.length := length ▸ feasible.accounts
  have time := feasible.time
  have few := feasible.few
  obtain ⟨block, builder', generated⟩ := ready.generates feasible derived inside
  obtain ⟨delivery, processor', delivered, next, moved⟩ := ready.delivers feasible derived inside generated peerId
  have listed (address : Address) (member : address ∈ options.senders accounts blockIndex) :
      Present processor address ∧ Present processor' address := by
    obtain ⟨account, inside, rfl⟩ := senders_listed nonempty member
    exact ⟨ready.present account inside, next.present account inside⟩
  have gathers : Talks (gatherTransactions host (options.config accounts) options.genesisAccountCount.toNat blockIndex
      (List.range options.transactionsPerBlock.toNat) .empty) id id
      ((options.senders accounts blockIndex).map fun address => .asked (processor.snapshot address))
      (options.gathered accounts processor blockIndex) := by
    rw [← length, ClientOptions.senders, List.map_map]
    refine gatherTransactions_talks (fun _ => rfl) nonempty (fun index member => ?_) (fun position => ?_) .empty
    · rw [List.mem_range] at member
      omega
    · obtain ⟨account, member, same⟩ := senderAt_mem options nonempty position
      have nonce := ready.nonces account member
      rw [same, ← BlockProcessor.snapshot_nonce] at nonce
      omega
  have caught : CaughtUp (options.gathered accounts processor blockIndex).expectedSenderNonces
      ((options.senders accounts blockIndex).map processor'.snapshot) := by
    have expected : (options.gathered accounts processor blockIndex).expectedSenderNonces =
        (options.senders accounts blockIndex).map fun address =>
          (address, (processor.snapshot address).nonce + 1) := by
      rw [ClientOptions.senders, List.map_map]
      exact List.nil_append _
    rw [CaughtUp, expected, List.forall₂_map_left_iff, List.forall₂_map_right_iff, List.forall₂_same]
    intro address member
    have nonce := moved address member
    rw [← BlockProcessor.snapshot_nonce, ← BlockProcessor.snapshot_nonce] at nonce
    exact ⟨rfl, by bv_omega⟩
  have waits := waitForSenderNonces_talks caught rounds
  rw [List.map_map] at waits
  refine ⟨_, builder', processor', (Honest.asks fun address member => (listed address member).1).trans
    (.submitted delivered (.asks fun address member => (listed address member).2)), ?_, next⟩
  refine (gathers.onFramed builder).bind ((Talks.onBuilder generated).bind
    ((Talks.lift (Outcome.mapErr_eq_ok.mpr (hashHeader_eq _ _))).bind (((send_talks block).onFramed builder').bind
      ((flush_talks.onFramed builder').bind (waits.onFramed builder')))))

include feasible derived in
/-- The client gets all its blocks through. -/
theorem Ready.sendBlocks (patience : Nat → Nat) (peerId : PeerId) {remaining blockIndex : Nat} {builder : BlockBuilder}
    {processor : BlockProcessor} (ready : Ready host options accounts builder processor blockIndex)
    (all : blockIndex + remaining = options.blockCount.toNat) : ∃ turns builder' processor',
    Honest host peerId processor turns processor' ∧
    Talks (MiniEthNode.sendBlocks host signer options (options.config accounts) patience remaining blockIndex)
      (⟨·, builder⟩) (⟨·, builder'⟩) turns () ∧
    Ready host options accounts builder' processor' options.blockCount.toNat := by
  induction remaining generalizing blockIndex builder processor with
  | zero => exact ⟨[], builder, processor, .nil, .of_pure _ _, all ▸ ready⟩
  | succ remaining ih =>
    obtain ⟨turns, between, processor', honest, talks, next⟩ :=
      ready.sendBlock feasible derived (by omega) (patience blockIndex) peerId
    obtain ⟨later, builder', processor'', honest', talks', last⟩ := ih next (by omega)
    exact ⟨turns ++ later, builder', processor'', honest.trans honest', talks.bind talks', last⟩

include derived in
/-- The client takes over the head of a fresh node, which is the one it has. -/
theorem Ready.start (feasible : Feasible host signer options) : ∃ builder,
    BlockBuilder.setCurrentHead ((options.genesis host accounts).processor host).chainHead.number
      ((options.genesis host accounts).processor host).chainHead.hash (options.builder host accounts) =
        .ok ((), builder) ∧
    Ready host options accounts builder ((options.genesis host accounts).processor host) 0 := by
  have difficulty : host.overflowChecks = true → (options.genesis host accounts).totalDifficulty.toNat ≤ 2 ^ 64 :=
    fun _ => by
      change (0 : U128).toNat ≤ _
      simp
  have recovers : SignaturesRecover host signer (options.indices.map genesisKey)
    (options.genesis host accounts).chainId := feasible.recovers
  have session : Session host signer (options.genesis host accounts) (options.indices.map genesisKey)
    (options.builder host accounts) ((options.genesis host accounts).processor host) :=
    .start rfl ((options.genesis host accounts).boot_eq host)
  have inStep := session.inStep recovers (feasible.supply_fits derived) difficulty
  have fits : (options.builder host accounts).state.genesisTimestamp.toNat + 12 * (0 : U64).toNat < 2 ^ 64 :=
    (options.builder host accounts).state.genesisTimestamp.isLt
  obtain ⟨timestamp, timed⟩ := BlockBuilder.timestampAt_of_fits _ _ fits
  have held (account : GenesisAccount) (member : account ∈ accounts) :
      ((options.genesis host accounts).processor host).pipeline.provider.state.lookup account.address =
        some { Account.default with balance := options.genesisBalance } :=
    lookup_fundedState (fun _ member => derived.balance member) member
  refine ⟨_, Exec.bind_ok (Exec.read_eq_ok.mpr ⟨timed, rfl⟩), inStep.withHead _ _ _, rfl, rfl, rfl, ?_, ?_, ?_⟩
  · intro account member
    rw [Present, held account member]
    rfl
  · intro account member
    rw [nonceOf, held account member]
    exact Nat.le_refl 0
  · intro account member
    rw [balanceOf, held account member]
    exact Nat.le_add_right _ _

end Rounds

end MiniEthNode
