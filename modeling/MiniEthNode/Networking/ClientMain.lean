import MiniEthNode.BlockBuilder.Setup
import MiniEthNode.Networking.TestClient

namespace MiniEthNode
open Rust

structure ClientOptions extends GenesisOptions where
  blockCount : U64
  transactionsPerBlock : UInt8
  outOfOrder : Bool

/-- The `Box<dyn Error>` of `main`. -/
inductive MainError where
  | setup (error : SetupError)
  | invalidInput (message : String)
  | connect
  | client (error : ClientError)
  | builder (error : BuilderError)
  | hashing (error : RlpError)
  deriving DecidableEq

/-- What `main` writes to after its setup. -/
structure Client where
  framed : FramedStream
  builder : BlockBuilder

namespace Client

def onFramed {α : Type} (x : Exec FramedStream ClientError α) : Exec Client MainError α :=
  Exec.mapErr .client (Exec.focus (·.framed) (fun framed client => { client with framed := framed }) x)

def onBuilder {α : Type} (x : Exec BlockBuilder BuilderError α) : Exec Client MainError α :=
  Exec.mapErr .builder (Exec.focus (·.builder) (fun builder client => { client with builder := builder }) x)

end Client

/-- One round of queries: whether every sender has its expected nonce. -/
def pollNonces : List (Address × U64) → Bool → Exec FramedStream ClientError Bool
  | [], allProcessed => pure allProcessed
  | (address, expectedNonce) :: rest, allProcessed => do
    let snapshot ← queryAccountState address
    pollNonces rest (if snapshot.nonce < expectedNonce then false else allProcessed)

/-- The loop of `wait_for_sender_nonces`, with the number of rounds that end before the deadline. -/
def waitForSenderNonces (expectedNonces : List (Address × U64)) : Nat → Exec FramedStream ClientError Unit
  | 0 => do
    let allProcessed ← pollNonces expectedNonces true
    if allProcessed then pure ()
    else Exec.throw (.io .timedOut "timed out waiting for block processing confirmation")
  | rounds + 1 => do
    let allProcessed ← pollNonces expectedNonces true
    if allProcessed then pure () else waitForSenderNonces expectedNonces rounds

/-- What the client has collected for a block. -/
structure Gathered where
  transactionSpecs : List TransactionSpec
  accountSnapshots : HashMap Address AccountSnapshot
  expectedSenderNonces : List (Address × U64)

def Gathered.empty : Gathered := ⟨[], ∅, []⟩

section Main
variable (host : Host) (signer : Signer) (options : ClientOptions) (config : GenesisConfig)

/-- The loop over the transactions of a block. The sum of the two indices is one of `usize`. -/
def gatherTransactions (accountCount blockIndex : Nat) :
    List Nat → Gathered → Exec FramedStream ClientError Gathered
  | [], gathered => pure gathered
  | transactionIndex :: rest, gathered => do
    let position ← Exec.lift (add host.overflowChecks (.ofNat 64 blockIndex) (.ofNat 64 transactionIndex))
    let senderIndex := position.toNat % accountCount
    let recipientIndex := (senderIndex + 1) % accountCount
    let sender ← Exec.lift (index config.accounts senderIndex)
    let recipient ← Exec.lift (index config.accounts recipientIndex)
    let snapshot ← queryAccountState sender.address
    let expectedNonce ← Exec.lift (Outcome.okOr (checkedAdd snapshot.nonce 1)
      (.io .invalidData "sender nonce overflow"))
    gatherTransactions accountCount blockIndex rest
      { transactionSpecs := gathered.transactionSpecs ++
          [⟨senderIndex, recipient.address, 1000000000000000000, 21000⟩]
        accountSnapshots := gathered.accountSnapshots.insert sender.address snapshot
        expectedSenderNonces := gathered.expectedSenderNonces ++ [(sender.address, expectedNonce)] }

/-- One round of the loop over the blocks. -/
def sendBlock (rounds blockIndex : Nat) : Exec Client MainError Unit := do
  let gathered ← Client.onFramed (gatherTransactions host config options.genesisAccountCount.toNat blockIndex
    (List.range options.transactionsPerBlock.toNat) .empty)
  let block ← Client.onBuilder
    (BlockBuilder.generateBlock host signer ⟨gathered.transactionSpecs⟩ gathered.accountSnapshots)
  let _ ← Exec.lift ((hashHeader host block.header).mapErr .hashing)
  Client.onFramed (FramedStream.send (.newBlock block (block.header.gasUsed.setWidth 128)))
  Client.onFramed FramedStream.flush
  Client.onFramed (waitForSenderNonces gathered.expectedSenderNonces rounds)

variable (patience : Nat → Nat)

/-- The loop over the blocks; each has its own number of rounds before its deadline. -/
def sendBlocks : (remaining blockIndex : Nat) → Exec Client MainError Unit
  | 0, _ => pure ()
  | remaining + 1, blockIndex => do
    sendBlock host signer options config (patience blockIndex) blockIndex
    sendBlocks remaining (blockIndex + 1)

/-- `main` after the handshake. -/
def clientSession : Exec Client MainError Unit := do
  let (serverHeadNumber, serverHeadHash, _) ← Client.onFramed queryChainHead
  Client.onBuilder (BlockBuilder.setCurrentHead serverHeadNumber serverHeadHash)
  if options.genesisAccountCount = 0 then
    Exec.throw (.invalidInput "genesis_account_count must be greater than zero")
  else if options.transactionsPerBlock > options.genesisAccountCount then
    Exec.throw (.invalidInput "transactions_per_block cannot exceed genesis_account_count")
  else do
    sendBlocks host signer options config patience options.blockCount.toNat 0
    Client.onFramed (FramedStream.send (.disconnect "all blocks sent"))
    Client.onFramed FramedStream.flush

/-- `main` on a stream. A handshake that fails is only logged, unless the response cannot be decoded. -/
def clientConverse : Exec Client MainError Unit := do
  let client ← Exec.get
  let (_, headHash) := client.builder.currentHead
  Client.onFramed (FramedStream.send (.status options.chainId headHash 0))
  match ← Client.onFramed FramedStream.next with
  | .next (some (.ok (.status chainId _ _))) =>
    if chainId ≠ options.chainId then pure () else clientSession host signer options config patience
  | .next (some (.ok _)) => pure ()
  | .next (some (.error error)) => Exec.throw (.client (.network error))
  | .next none => pure ()
  | .elapsed => pure ()

end Main

/-- `main`, with the stream that it gets if it can connect, and what it leaves. -/
def clientMain (host : Host) (signer : Signer) (options : ClientOptions) (stream : Option FramedStream)
    (patience : Nat → Nat) : Outcome MainError Client := do
  let (config, builder) ← (setupClient host signer options.toGenesisOptions).mapErr .setup
  if options.outOfOrder then
    .err (.invalidInput "out-of-order mode requires local execution or state prediction and is disabled with node-backed nonce queries")
  else do
    let framed ← Outcome.okOr stream .connect
    match clientConverse host signer options config patience ⟨framed, builder⟩ with
    | .ok (_, client) => .ok client
    | .err (error, _) => .err error
    | .panic => .panic

section Conversation

/-- One turn of the conversation: a query with its answer, or a block. -/
inductive ClientTurn where
  | asked (snapshot : AccountSnapshot)
  | submitted (block : Block)

namespace ClientTurn

def message : ClientTurn → Message
  | asked snapshot => .getAccountState snapshot.address
  | submitted block => .newBlock block (block.header.gasUsed.setWidth 128)

def answer : ClientTurn → Option Message
  | asked snapshot => some (.accountState snapshot.address snapshot.nonce snapshot.balance)
  | submitted _ => none

end ClientTurn

/-- What a call has written to the stream and read from it. -/
structure Held (turns : List ClientTurn) (framed framed' : FramedStream) : Prop where
  written : framed'.written = framed.written ++ turns.map ClientTurn.message
  waits : framed.waits = delivered (turns.filterMap ClientTurn.answer) ++ framed'.waits

/-- The addresses of the genesis accounts. -/
def GenesisConfig.addresses (config : GenesisConfig) : List Address := config.accounts.map GenesisAccount.address

/-- What the client does for one block: it asks for the accounts of the senders, sends the block, and asks for the
accounts again until they have moved. -/
structure BlockRound where
  before : List AccountSnapshot
  block : Block
  polled : List AccountSnapshot
  after : List AccountSnapshot

def BlockRound.turns (round : BlockRound) : List ClientTurn :=
  round.before.map .asked ++ .submitted round.block :: (round.polled ++ round.after).map .asked

/-- A round that the client takes for confirmed. -/
structure BlockRound.Confirmed (options : ClientOptions) (config : GenesisConfig) (round : BlockRound) : Prop where
  asked : ∀ snapshot ∈ round.before ++ (round.polled ++ round.after), snapshot.address ∈ config.addresses
  moved : List.Forall₂ (fun old new => new.address = old.address ∧ old.nonce < new.nonce) round.before round.after
  senders : round.before.length = options.transactionsPerBlock.toNat
  transactions : round.block.transactions.length = options.transactionsPerBlock.toNat
  transfers : ∀ signed ∈ round.block.transactions, signed.transaction.IsTransfer

variable {framed framed' between : FramedStream} {turns : List ClientTurn}

theorem Held.nil : Held [] framed framed := ⟨(List.append_nil _).symm, rfl⟩

theorem delivered_append (first second : List Message) : delivered (first ++ second) = delivered first ++ delivered second :=
  List.map_append

theorem Held.trans {later : List ClientTurn} (first : Held turns framed between) (second : Held later between framed') :
    Held (turns ++ later) framed framed' := by
  constructor
  · rw [second.written, first.written, List.map_append, List.append_assoc]
  · rw [first.waits, second.waits, List.filterMap_append, delivered_append, List.append_assoc]

theorem send_ok {item : Message} {value : Unit} (ran : FramedStream.send item framed = .ok (value, framed')) :
    framed'.written = framed.written ++ [item] ∧ framed'.waits = framed.waits := by
  unfold FramedStream.send at ran
  dsimp only at ran
  split at ran <;> cases ran
  exact ⟨rfl, rfl⟩

theorem flush_ok {value : Unit} (ran : FramedStream.flush framed = .ok (value, framed')) :
    framed'.written = framed.written ∧ framed'.waits = framed.waits := by
  unfold FramedStream.flush at ran
  dsimp only at ran
  split at ran <;> cases ran
  exact ⟨rfl, rfl⟩

theorem next_written {wait : Wait} (ran : FramedStream.next framed = .ok (wait, framed')) :
    framed'.written = framed.written := by
  unfold FramedStream.next at ran
  split at ran <;> cases ran <;> rfl

theorem next_waits {message : Message} (ran : FramedStream.next framed = .ok (.next (some (.ok message)), framed')) :
    framed.waits = delivered [message] ++ framed'.waits := by
  unfold FramedStream.next at ran
  split at ran
  · cases ran
  · rename_i first
    cases ran
    exact first

theorem exchange_ok {request message : Message} {label : String}
    (ran : exchange request label framed = .ok (message, framed')) :
    framed'.written = framed.written ++ [request] ∧ framed.waits = delivered [message] ++ framed'.waits := by
  obtain ⟨_, _, sent, ran⟩ := Exec.bind_eq_ok.mp ran
  obtain ⟨written, waits⟩ := send_ok sent
  obtain ⟨_, _, flushed, ran⟩ := Exec.bind_eq_ok.mp ran
  obtain ⟨written', waits'⟩ := flush_ok flushed
  obtain ⟨wait, _, arrived, ran⟩ := Exec.bind_eq_ok.mp ran
  split at ran <;> cases ran
  exact ⟨(next_written arrived).trans (written'.trans written),
    (waits'.trans waits).symm.trans (next_waits arrived)⟩

theorem queryAccountState_ok {address : Address} {snapshot : AccountSnapshot}
    (ran : queryAccountState address framed = .ok (snapshot, framed')) :
    snapshot.address = address ∧ Held [.asked snapshot] framed framed' := by
  obtain ⟨message, _, exchanged, ran⟩ := Exec.bind_eq_ok.mp ran
  obtain ⟨written, waits⟩ := exchange_ok exchanged
  split at ran
  · split at ran
    · cases ran
    · rename_i same
      cases ran
      cases not_not.mp same
      exact ⟨rfl, written, waits⟩
  · cases ran

theorem queryChainHead_ok {head : U64 × B256 × U128} (ran : queryChainHead framed = .ok (head, framed')) :
    framed'.written = framed.written ++ [.getChainHead] ∧
      framed.waits = delivered [.chainHead head.1 head.2.1 head.2.2] ++ framed'.waits := by
  obtain ⟨message, _, exchanged, ran⟩ := Exec.bind_eq_ok.mp ran
  obtain ⟨written, waits⟩ := exchange_ok exchanged
  split at ran
  · cases ran
    exact ⟨written, waits⟩
  · cases ran

/-- The accounts have caught up with the nonces that are expected. -/
def CaughtUp (expected : List (Address × U64)) (snapshots : List AccountSnapshot) : Prop :=
  List.Forall₂ (fun entry snapshot => snapshot.address = entry.1 ∧ entry.2 ≤ snapshot.nonce) expected snapshots

/-- A round of queries asks for each account once. It succeeds if no nonce is behind. -/
theorem pollNonces_ok {expected : List (Address × U64)} {all result : Bool}
    (ran : pollNonces expected all framed = .ok (result, framed')) :
    ∃ snapshots, Held (snapshots.map ClientTurn.asked) framed framed' ∧
      snapshots.map AccountSnapshot.address = expected.map Prod.fst ∧
      (result = true → all = true ∧ CaughtUp expected snapshots) := by
  induction expected generalizing framed all with
  | nil =>
    cases ran
    exact ⟨[], .nil, rfl, fun all => ⟨all, .nil⟩⟩
  | cons entry rest ih =>
    obtain ⟨snapshot, _, asked, ran⟩ := Exec.bind_eq_ok.mp ran
    obtain ⟨same, held⟩ := queryAccountState_ok asked
    obtain ⟨snapshots, later, asked, caught⟩ := ih ran
    refine ⟨snapshot :: snapshots, held.trans later, by rw [List.map_cons, List.map_cons, same, asked], fun done => ?_⟩
    obtain ⟨carried, each⟩ := caught done
    split at carried
    · cases carried
    · rename_i level
      exact ⟨carried, .cons ⟨same, BitVec.not_lt.mp level⟩ each⟩

/-- The client waits until a round of queries has caught up. -/
theorem waitForSenderNonces_ok {expected : List (Address × U64)} {rounds : Nat} {value : Unit}
    (ran : waitForSenderNonces expected rounds framed = .ok (value, framed')) :
    ∃ earlier snapshots, Held ((earlier ++ snapshots).map ClientTurn.asked) framed framed' ∧
      (∀ snapshot ∈ earlier, snapshot.address ∈ expected.map Prod.fst) ∧ CaughtUp expected snapshots := by
  induction rounds generalizing framed with
  | zero =>
    obtain ⟨result, _, polled, ran⟩ := Exec.bind_eq_ok.mp ran
    obtain ⟨snapshots, held, _, caught⟩ := pollNonces_ok polled
    split at ran
    · rename_i done
      cases ran
      exact ⟨[], snapshots, held, by simp, (caught done).2⟩
    · cases ran
  | succ rounds ih =>
    obtain ⟨result, _, polled, ran⟩ := Exec.bind_eq_ok.mp ran
    obtain ⟨first, held, asked, caught⟩ := pollNonces_ok polled
    split at ran
    · rename_i done
      cases ran
      exact ⟨[], first, held, by simp, (caught done).2⟩
    · obtain ⟨earlier, snapshots, later, known, level⟩ := ih ran
      refine ⟨first ++ earlier, snapshots, ?_, fun snapshot member => ?_, level⟩
      · rw [List.append_assoc, List.map_append]
        exact held.trans later
      · rcases List.mem_append.mp member with here | there
        · exact asked ▸ List.mem_map_of_mem here
        · exact known snapshot there

section Rounds
variable {host : Host} {signer : Signer} {options : ClientOptions} {config : GenesisConfig}

/-- The client asks for the account of each sender, and expects its nonce to grow by one. -/
theorem gatherTransactions_ok {accountCount blockIndex : Nat} {indices : List Nat} {gathered gathered' : Gathered}
    (ran : gatherTransactions host config accountCount blockIndex indices gathered framed = .ok (gathered', framed')) :
    ∃ snapshots : List AccountSnapshot, Held (snapshots.map ClientTurn.asked) framed framed' ∧
      snapshots.length = indices.length ∧
      (∀ snapshot ∈ snapshots, snapshot.address ∈ config.addresses ∧ snapshot.nonce.toNat + 1 < 2 ^ 64) ∧
      gathered'.expectedSenderNonces =
        gathered.expectedSenderNonces ++ snapshots.map (fun snapshot => (snapshot.address, snapshot.nonce + 1)) ∧
      gathered'.transactionSpecs.length = gathered.transactionSpecs.length + indices.length := by
  induction indices generalizing framed gathered with
  | nil =>
    cases ran
    exact ⟨[], .nil, rfl, by simp, (List.append_nil _).symm, rfl⟩
  | cons transactionIndex rest ih =>
    obtain ⟨position, _, ran⟩ := Exec.lift_bind_eq_ok.mp ran
    obtain ⟨sender, atSender, ran⟩ := Exec.lift_bind_eq_ok.mp ran
    obtain ⟨recipient, _, ran⟩ := Exec.lift_bind_eq_ok.mp ran
    obtain ⟨snapshot, _, asked, ran⟩ := Exec.bind_eq_ok.mp ran
    obtain ⟨expectedNonce, sum, ran⟩ := Exec.lift_bind_eq_ok.mp ran
    obtain ⟨same, held⟩ := queryAccountState_ok asked
    have sum := checkedAdd_eq_some.mp (Outcome.okOr_eq_ok.mp sum)
    change _ + 1 = _ at sum
    have bound := expectedNonce.isLt
    have nonce : expectedNonce = snapshot.nonce + 1 := by bv_omega
    obtain ⟨snapshots, later, length, known, expected, specs⟩ := ih ran
    refine ⟨snapshot :: snapshots, held.trans later, by rw [List.length_cons, List.length_cons, length],
      List.forall_mem_cons.mpr ⟨⟨?_, by omega⟩, known⟩, ?_, ?_⟩
    · rw [same]
      exact List.mem_map_of_mem (List.mem_of_getElem? (index_eq_ok atSender))
    · rw [expected, ← same, nonce, List.map_cons, List.append_assoc]
      rfl
    · rw [specs, List.length_append, List.length_singleton, List.length_cons]
      omega

namespace Client
variable {client client' : Client}

theorem onFramed_ok {α : Type} {x : Exec FramedStream ClientError α} {value : α}
    (ran : onFramed x client = .ok (value, client')) :
    x client.framed = .ok (value, client'.framed) ∧ client'.builder = client.builder := by
  unfold onFramed Exec.mapErr Exec.focus at ran
  cases called : x client.framed with
  | ok result =>
    rw [called] at ran
    cases ran
    exact ⟨rfl, rfl⟩
  | err failure =>
    rw [called] at ran
    cases ran
  | panic =>
    rw [called] at ran
    cases ran

theorem onBuilder_ok {α : Type} {x : Exec BlockBuilder BuilderError α} {value : α}
    (ran : onBuilder x client = .ok (value, client')) :
    x client.builder = .ok (value, client'.builder) ∧ client'.framed = client.framed := by
  unfold onBuilder Exec.mapErr Exec.focus at ran
  cases called : x client.builder with
  | ok result =>
    rw [called] at ran
    cases ran
    exact ⟨rfl, rfl⟩
  | err failure =>
    rw [called] at ran
    cases ran
  | panic =>
    rw [called] at ran
    cases ran

end Client

theorem addresses_of_moved {before after : List AccountSnapshot}
    (moved : List.Forall₂ (fun old new => new.address = old.address ∧ old.nonce < new.nonce) before after) :
    after.map AccountSnapshot.address = before.map AccountSnapshot.address := by
  rw [← List.forall₂_eq_eq_eq, List.forall₂_map_left_iff, List.forall₂_map_right_iff]
  exact List.Forall₂.flip (moved.imp fun _ _ here => here.1)

theorem sendBlock_ok {rounds blockIndex : Nat} {client client' : Client} {value : Unit}
    (ran : sendBlock host signer options config rounds blockIndex client = .ok (value, client')) :
    ∃ round : BlockRound, round.Confirmed options config ∧ Held round.turns client.framed client'.framed ∧
      client'.builder.currentHead = (round.block.header.number, headerHash host round.block.header) := by
  obtain ⟨gathered, _, asked, ran⟩ := Exec.bind_eq_ok.mp ran
  obtain ⟨asked, same⟩ := Client.onFramed_ok asked
  obtain ⟨block, _, generated, ran⟩ := Exec.bind_eq_ok.mp ran
  obtain ⟨generated, between⟩ := Client.onBuilder_ok generated
  obtain ⟨_, _, ran⟩ := Exec.lift_bind_eq_ok.mp ran
  obtain ⟨_, _, sent, ran⟩ := Exec.bind_eq_ok.mp ran
  obtain ⟨sent, kept⟩ := Client.onFramed_ok sent
  obtain ⟨_, _, flushed, ran⟩ := Exec.bind_eq_ok.mp ran
  obtain ⟨flushed, kept'⟩ := Client.onFramed_ok flushed
  obtain ⟨waited, kept''⟩ := Client.onFramed_ok ran
  obtain ⟨before, held, length, known, expected, specs⟩ := gatherTransactions_ok asked
  obtain ⟨polled, after, later, again, caught⟩ := waitForSenderNonces_ok waited
  obtain ⟨each, -, -, -, -, -, head⟩ := BlockBuilder.generateBlock_ok generated
  obtain ⟨written, waits⟩ := send_ok sent
  obtain ⟨written', waits'⟩ := flush_ok flushed
  have submitted : Held [.submitted block] _ _ := ⟨written'.trans written, (waits'.trans waits).symm⟩
  rw [between] at submitted
  replace expected := expected.trans (List.nil_append _)
  have addresses : gathered.expectedSenderNonces.map Prod.fst = before.map AccountSnapshot.address := by
    rw [expected, List.map_map]
    rfl
  have moved : List.Forall₂ (fun old new => new.address = old.address ∧ old.nonce < new.nonce) before after := by
    rw [CaughtUp, expected, List.forall₂_map_left_iff] at caught
    have each := (List.forall₂_and_left _ _).mpr ⟨fun snapshot member => (known snapshot member).2, caught⟩
    refine each.imp ?_
    rintro old new ⟨fits, same, level⟩
    refine ⟨same, ?_⟩
    bv_omega
  have whole := (held.trans submitted).trans later
  rw [List.append_assoc, List.singleton_append] at whole
  refine ⟨⟨before, block, polled, after⟩,
    ⟨fun snapshot member => ?_, moved, ?_, ?_, BlockBuilder.generateBlock_transfers generated⟩, whole, ?_⟩
  · have own (old : AccountSnapshot) (listed : old ∈ before) : old.address ∈ config.addresses := (known old listed).1
    rcases List.mem_append.mp member with here | there
    · exact own snapshot here
    rcases List.mem_append.mp there with here | there
    · obtain ⟨old, listed, same⟩ := List.mem_map.mp (addresses ▸ again snapshot here)
      exact same ▸ own old listed
    · obtain ⟨old, listed, same⟩ := List.mem_map.mp (addresses_of_moved moved ▸ List.mem_map_of_mem there)
      exact same ▸ own old listed
  · rw [length, List.length_range]
  · rw [← each.length_eq, specs, List.length_range]
    exact Nat.zero_add _
  · rw [kept'', kept', kept, head]
    rfl

variable {patience : Nat → Nat} {client client' : Client} {value : Unit}

theorem sendBlocks_ok {remaining blockIndex : Nat}
    (ran : sendBlocks host signer options config patience remaining blockIndex client = .ok (value, client')) :
    ∃ rounds : List BlockRound, (∀ round ∈ rounds, round.Confirmed options config) ∧ rounds.length = remaining ∧
      Held (rounds.flatMap BlockRound.turns) client.framed client'.framed ∧
      ∀ last, rounds.getLast? = some last →
        client'.builder.currentHead = (last.block.header.number, headerHash host last.block.header) := by
  induction remaining generalizing blockIndex client with
  | zero =>
    cases ran
    exact ⟨[], by simp, rfl, .nil, by simp⟩
  | succ remaining ih =>
    obtain ⟨_, _, first, ran⟩ := Exec.bind_eq_ok.mp ran
    obtain ⟨round, confirmed, held, head⟩ := sendBlock_ok first
    obtain ⟨rounds, each, length, later, last⟩ := ih ran
    refine ⟨round :: rounds, List.forall_mem_cons.mpr ⟨confirmed, each⟩, by rw [List.length_cons, length],
      held.trans later, fun final found => ?_⟩
    cases rounds with
    | nil =>
      cases found
      cases remaining with
      | zero =>
        cases ran
        exact head
      | succ => cases length
    | cons next rest => exact last final found

theorem clientSession_ok
    (ran : clientSession host signer options config patience client = .ok (value, client')) :
    ∃ number hash totalDifficulty, ∃ rounds : List BlockRound, (∀ round ∈ rounds, round.Confirmed options config) ∧
      rounds.length = options.blockCount.toNat ∧
      client'.framed.written = client.framed.written ++ .getChainHead ::
        (rounds.flatMap BlockRound.turns).map ClientTurn.message ++ [.disconnect "all blocks sent"] ∧
      client.framed.waits = delivered (.chainHead number hash totalDifficulty ::
        (rounds.flatMap BlockRound.turns).filterMap ClientTurn.answer) ++ client'.framed.waits ∧
      ∀ last, rounds.getLast? = some last →
        client'.builder.currentHead = (last.block.header.number, headerHash host last.block.header) := by
  obtain ⟨⟨number, hash, totalDifficulty⟩, _, queried, ran⟩ := Exec.bind_eq_ok.mp ran
  obtain ⟨queried, _⟩ := Client.onFramed_ok queried
  obtain ⟨_, _, moved, ran⟩ := Exec.bind_eq_ok.mp ran
  obtain ⟨_, same⟩ := Client.onBuilder_ok moved
  split at ran
  · cases ran
  split at ran
  · cases ran
  obtain ⟨_, _, sent, ran⟩ := Exec.bind_eq_ok.mp ran
  obtain ⟨_, _, closed, ran⟩ := Exec.bind_eq_ok.mp ran
  obtain ⟨closed, kept⟩ := Client.onFramed_ok closed
  obtain ⟨flushed, kept'⟩ := Client.onFramed_ok ran
  obtain ⟨asked, answered⟩ := queryChainHead_ok queried
  obtain ⟨rounds, each, length, held, last⟩ := sendBlocks_ok sent
  obtain ⟨written, waits⟩ := send_ok closed
  obtain ⟨written', waits'⟩ := flush_ok flushed
  rw [same] at held
  refine ⟨number, hash, totalDifficulty, rounds, each, length, ?_, ?_, ?_⟩
  · rw [written', written, held.written, asked]
    simp
  · rw [answered, held.waits, waits', waits]
    rfl
  · rw [kept', kept]
    exact last

/-- What a client has written and read that has come to its end. -/
structure Finished (host : Host) (options : ClientOptions) (config : GenesisConfig) (framed : FramedStream)
    (client : Client) (rounds : List BlockRound) : Prop where
  confirmed : ∀ round ∈ rounds, round.Confirmed options config
  length : rounds.length = options.blockCount.toNat
  written : ∃ headHash, client.framed.written = .status options.chainId headHash 0 :: .getChainHead ::
    (rounds.flatMap BlockRound.turns).map ClientTurn.message ++ [.disconnect "all blocks sent"]
  waits : ∃ serverHash serverDifficulty number hash totalDifficulty,
    framed.waits = delivered (.status options.chainId serverHash serverDifficulty ::
      .chainHead number hash totalDifficulty :: (rounds.flatMap BlockRound.turns).filterMap ClientTurn.answer) ++
        client.framed.waits
  head : ∀ last, rounds.getLast? = some last →
    client.builder.currentHead = (last.block.header.number, headerHash host last.block.header)

/-- The client ends after its `Status`, if the node has another chain or does not answer in time, or it has taken each
of its blocks for confirmed. -/
theorem clientMain_cases {framed : FramedStream} (fresh : framed.written = [])
    (ran : clientMain host signer options (some framed) patience = .ok client) :
    (∃ headHash, client.framed.written = [.status options.chainId headHash 0]) ∨
      ∃ config builder rounds, setupClient host signer options.toGenesisOptions = .ok (config, builder) ∧
        Finished host options config framed client rounds := by
  obtain ⟨⟨config, builder⟩, started, ran⟩ := Outcome.bind_eq_ok.mp ran
  dsimp only at ran
  split at ran
  · cases ran
  rw [Outcome.okOr_some, Outcome.ok_bind] at ran
  split at ran <;> cases ran
  rename_i conversed
  rw [clientConverse, Exec.get_bind] at conversed
  obtain ⟨_, _, sent, conversed⟩ := Exec.bind_eq_ok.mp conversed
  obtain ⟨sent, _⟩ := Client.onFramed_ok sent
  obtain ⟨written, waits⟩ := send_ok sent
  obtain ⟨wait, between, arrived, conversed⟩ := Exec.bind_eq_ok.mp conversed
  obtain ⟨arrived, _⟩ := Client.onFramed_ok arrived
  have greeted : between.framed.written = [.status options.chainId builder.currentHead.2 0] := by
    rw [next_written arrived, written, fresh]
    rfl
  split at conversed
  · split at conversed
    · cases conversed
      exact .inl ⟨_, greeted⟩
    · rename_i serverHash serverDifficulty _ same
      cases not_not.mp same
      obtain ⟨number, hash, totalDifficulty, rounds, each, length, wrote, read, head⟩ := clientSession_ok conversed
      refine .inr ⟨config, builder, rounds, Outcome.mapErr_eq_ok.mp started, each, length, ⟨builder.currentHead.2, ?_⟩,
        ⟨serverHash, serverDifficulty, number, hash, totalDifficulty, ?_⟩, head⟩
      · rw [wrote, greeted]
        rfl
      · rw [← waits, next_waits arrived, read]
        rfl
  · cases conversed
    exact .inl ⟨_, greeted⟩
  · cases conversed
  · cases conversed
    exact .inl ⟨_, greeted⟩
  · cases conversed
    exact .inl ⟨_, greeted⟩

/-- The client says that all blocks are sent only after it has taken each of them for confirmed. -/
theorem clientMain_ok {framed : FramedStream} (fresh : framed.written = [])
    (ran : clientMain host signer options (some framed) patience = .ok client)
    (ended : Message.disconnect "all blocks sent" ∈ client.framed.written) :
    ∃ config builder rounds, setupClient host signer options.toGenesisOptions = .ok (config, builder) ∧
      Finished host options config framed client rounds := by
  rcases clientMain_cases fresh ran with ⟨headHash, greeted⟩ | finished
  · rw [greeted] at ended
    simp at ended
  · exact finished

end Rounds

end Conversation

end MiniEthNode
