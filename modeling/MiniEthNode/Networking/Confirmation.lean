import MiniEthNode.Networking.ClientMain
import MiniEthNode.Networking.Serving
import MiniEthNode.Processor.Payments

namespace MiniEthNode
open Rust

section Processor

/-- With an empty queue, a message leaves the ledger as it is, or its block is committed and the queue is empty again. -/
theorem Replica.receive_idle {rules : Rules} {replica after : Replica} {message : PendingBlock} {delivery : Delivery}
    (idle : replica.pending = ∅) (received : replica.receive rules message = some (delivery, after)) :
    after.ledger = replica.ledger ∨
      after.pending = ∅ ∧ ∃ output, judge rules replica.ledger message.block = .ok (output, after.ledger) := by
  obtain ⟨expected, _, ⟨_, rfl⟩ | ⟨_, processed, _, drains⟩⟩ := Replica.receive_cases received
  · exact .inl rfl
  cases drains with
  | stop => exact .inl rfl
  | @next _ following _ entry ledger blocks _ found absorbed _ later =>
    dsimp only at found absorbed later
    rw [idle, HashMap.lookup_insert_ite] at found
    split at found
    · rename_i here
      cases found
      have emptied : (replica.pending.insert message.block.header.number message).erase expected = ∅ := by
        refine Finmap.ext_lookup fun number => ?_
        rw [idle, HashMap.lookup_erase_ite, HashMap.lookup_insert_ite, here]
        split <;> rfl
      rw [emptied] at later
      cases later with
      | stop =>
        rcases absorb_cases absorbed with committed | rfl
        · exact .inr ⟨rfl, committed⟩
        · exact .inl rfl
      | next found => cases found
    · cases found

theorem Committed.head {rules : Rules} {before after : Ledger} {blocks : List Block} {last : Block}
    (committed : Committed rules before blocks after) (found : blocks.getLast? = some last) :
    (after.chainHead.number, after.chainHead.hash) = (last.header.number, headerHash rules.host last.header) := by
  induction committed with
  | nil => cases found
  | @cons _ between _ block _ rest step later ih =>
    cases rest with
    | nil =>
      cases found
      cases later
      obtain ⟨_, _, _, _, _, rfl⟩ := judge_ok step
      rfl
    | cons next rest => exact ih found

theorem Committed.sizeWithin {rules : Rules} {before after : Ledger} {blocks : List Block}
    (committed : Committed rules before blocks after) :
    ∀ block ∈ blocks, block.transactions.length ≤ rules.validator.maxTxs := by
  induction committed with
  | nil => simp
  | cons step _ ih =>
    obtain ⟨_, _, _, _, commit, _⟩ := judge_ok step
    exact List.forall_mem_cons.mpr ⟨commit.sizeWithin, ih⟩

end Processor

section Server
variable {host : Host} {genesis : Genesis} {peerId : PeerId} {processor : BlockProcessor}

def ClientTurn.request (peerId : PeerId) : ClientTurn → NetworkEvent
  | asked snapshot => .getAccountState snapshot.address peerId
  | submitted block => .newBlock block peerId

/-- The answers that the client has got are the first ones of a server that works off its requests in order. -/
def Truthful (host : Host) (peerId : PeerId) (processor : BlockProcessor) (turns : List ClientTurn) : Prop :=
  turns.filterMap ClientTurn.answer <+:
    (serves (serveAccount host) processor (turns.map (ClientTurn.request peerId))).map Prod.snd

def Present (processor : BlockProcessor) (address : Address) : Prop :=
  (processor.pipeline.provider.state.lookup address).isSome

theorem Truthful.asked {snapshot : AccountSnapshot} {rest : List ClientTurn} (present : Present processor snapshot.address)
    (truthful : Truthful host peerId processor (.asked snapshot :: rest)) :
    nonceOf processor.pipeline.provider.state snapshot.address = snapshot.nonce.toNat ∧
      Truthful host peerId processor rest := by
  obtain ⟨account, found⟩ := Option.isSome_iff_exists.mp present
  simp only [Truthful, ClientTurn.request, List.map_cons, serves, serveAccount, found] at truthful
  obtain ⟨same, rest⟩ := List.cons_prefix_cons.mp truthful
  obtain ⟨_, nonce, _⟩ := Message.accountState.inj same
  rw [nonceOf, found, nonce]
  exact ⟨rfl, rest⟩

theorem Truthful.asks {snapshots : List AccountSnapshot} {rest : List ClientTurn}
    (present : ∀ snapshot ∈ snapshots, Present processor snapshot.address)
    (truthful : Truthful host peerId processor (snapshots.map .asked ++ rest)) :
    (∀ snapshot ∈ snapshots, nonceOf processor.pipeline.provider.state snapshot.address = snapshot.nonce.toNat) ∧
      Truthful host peerId processor rest := by
  induction snapshots with
  | nil => exact ⟨by simp, truthful⟩
  | cons snapshot snapshots ih =>
    obtain ⟨here, present⟩ := List.forall_mem_cons.mp present
    obtain ⟨nonce, later⟩ := Truthful.asked here truthful
    obtain ⟨nonces, rest⟩ := ih present later
    exact ⟨List.forall_mem_cons.mpr ⟨nonce, nonces⟩, rest⟩

/-- Whoever gets an answer after a block can tell that the processor has survived it. -/
theorem Truthful.submitted {block : Block} {rest : List ClientTurn} (answered : rest.filterMap ClientTurn.answer ≠ [])
    (truthful : Truthful host peerId processor (.submitted block :: rest)) :
    ∃ delivery after, deliver host processor ⟨block, peerId⟩ = some (delivery, after) ∧
      Truthful host peerId after rest := by
  simp only [Truthful, ClientTurn.request, List.map_cons, serves, serveAccount] at truthful
  cases delivered : deliver host processor ⟨block, peerId⟩ with
  | none =>
    rw [delivered] at truthful
    exact absurd (List.prefix_nil.mp truthful) answered
  | some step =>
    rw [delivered] at truthful
    exact ⟨step.1, step.2, rfl, truthful⟩

theorem Reach.present_of {message : PendingBlock} {delivery : Delivery} {after : BlockProcessor}
    (reach : Reach host genesis processor) (idle : processor.pendingMap = ∅)
    (delivered : deliver host processor message = some (delivery, after)) {address : Address}
    (present : Present processor address) : Present after address := by
  rcases Replica.receive_idle idle (reach.receive delivered) with same | ⟨_, output, committed⟩
  · have state : after.pipeline.provider.state = processor.pipeline.provider.state := congrArg (·.provider.state) same
    rwa [Present, state]
  · obtain ⟨parent, senders, state, totalDifficulty, commit, extended⟩ := judge_ok committed
    have state' : after.pipeline.provider.state = state := congrArg (·.provider.state) extended
    rw [Present, state']
    exact commit.present present

variable {options : ClientOptions} {config : GenesisConfig}

/-- The nonces move only with the block of the round. -/
theorem BlockRound.Confirmed.committed {round : BlockRound} {rest : List ClientTurn}
    (reach : Reach host genesis processor) (idle : processor.pendingMap = ∅)
    (present : ∀ address ∈ config.addresses, Present processor address)
    (sends : options.transactionsPerBlock ≠ 0) (confirmed : round.Confirmed options config)
    (truthful : Truthful host peerId processor (round.turns ++ rest)) :
    ∃ delivery after output, deliver host processor ⟨round.block, peerId⟩ = some (delivery, after) ∧
      judge (genesis.rules host) processor.ledger round.block = .ok (output, after.ledger) ∧ after.pendingMap = ∅ ∧
      Truthful host peerId after rest := by
  obtain ⟨old, olds, new, news, before, after, same, less⟩ : ∃ old olds new news, round.before = old :: olds ∧
      round.after = new :: news ∧ new.address = old.address ∧ old.nonce < new.nonce := by
    have some : options.transactionsPerBlock.toNat ≠ 0 := fun none => sends (UInt8.toNat_inj.mp none)
    rw [← confirmed.senders] at some
    have moved := confirmed.moved
    generalize round.before = before at moved some
    generalize round.after = after at moved
    cases moved with
    | nil => exact (some rfl).elim
    | cons here _ => exact ⟨_, _, _, _, rfl, rfl, here⟩
  have asked (snapshot : AccountSnapshot) (member : snapshot ∈ round.before ++ (round.polled ++ round.after)) :
      snapshot.address ∈ config.addresses := confirmed.asked snapshot member
  rw [BlockRound.turns, List.append_assoc, List.cons_append] at truthful
  obtain ⟨nonces, truthful⟩ := truthful.asks fun snapshot member =>
    present _ (asked snapshot (List.mem_append_left _ member))
  obtain ⟨delivery, processor', delivered, truthful⟩ := truthful.submitted (by simp [after, ClientTurn.answer])
  obtain ⟨nonces', truthful⟩ := truthful.asks fun snapshot member =>
    reach.present_of idle delivered (present _ (asked snapshot (List.mem_append_right _ member)))
  have first := nonces old (before ▸ List.mem_cons_self)
  have last := nonces' new (List.mem_append_right _ (after ▸ List.mem_cons_self))
  rcases Replica.receive_idle idle (reach.receive delivered) with kept | ⟨emptied, output, committed⟩
  · have state : processor'.pipeline.provider.state = processor.pipeline.provider.state :=
      congrArg (·.provider.state) kept
    rw [state, same, first] at last
    exact absurd last (Nat.ne_of_lt (BitVec.lt_def.mp less))
  · exact ⟨delivery, processor', output, delivered, committed, emptied, truthful⟩

/-- A client that has taken all its blocks for confirmed is right. -/
theorem rounds_committed {rounds : List BlockRound} (reach : Reach host genesis processor)
    (idle : processor.pendingMap = ∅) (present : ∀ address ∈ config.addresses, Present processor address)
    (sends : options.transactionsPerBlock ≠ 0) (confirmed : ∀ round ∈ rounds, round.Confirmed options config)
    (truthful : Truthful host peerId processor (rounds.flatMap BlockRound.turns)) :
    ∃ deliveries after,
      deliverAll host processor (rounds.map fun round => ⟨round.block, peerId⟩) = some (deliveries, after) ∧
      Committed (genesis.rules host) processor.ledger (rounds.map BlockRound.block) after.ledger := by
  induction rounds generalizing processor with
  | nil => exact ⟨[], processor, rfl, .nil⟩
  | cons round rounds ih =>
    obtain ⟨here, later⟩ := List.forall_mem_cons.mp confirmed
    obtain ⟨delivery, between, output, delivered, judged, emptied, truthful⟩ :=
      here.committed reach idle present sends truthful
    obtain ⟨deliveries, after, ran, committed⟩ := ih (reach.next delivered) emptied
      (fun address listed => reach.present_of idle delivered (present address listed)) later truthful
    refine ⟨delivery :: deliveries, after, ?_, .cons judged committed⟩
    rw [List.map_cons, deliverAll_cons delivered, ran]
    rfl

end Server

theorem NodeAction.tellsAccount_eq {action : NodeAction} {answer : PeerId × Message}
    (tells : action.tellsAccount = some answer) : ∃ peerId address nonce balance isOk,
      action = .adapter (.replied (.sendMessage peerId (.accountState address nonce balance)) isOk) := by
  unfold NodeAction.tellsAccount at tells
  split at tells
  · exact ⟨_, _, _, _, _, rfl⟩
  · cases tells

namespace Node
variable {host : Host} {chainId : U64} {processor : BlockProcessor} {node : Node} {actions : List NodeAction}

/-- A processor that runs has run all the time. -/
theorem runs_running {origin : Node} (ran : runs (step host chainId) origin actions = some node)
    (running : node.processing = true) : origin.processing = true := by
  induction actions generalizing origin with
  | nil =>
    cases ran
    exact running
  | cons action rest ih =>
    obtain ⟨next, first, ran⟩ := runs_cons_eq_some.mp ran
    exact step_running first (ih ran)

/-- While an account is told, the processor has worked off all that was taken up. -/
theorem reply_settled {peerId : PeerId} {address : Address} {nonce : U64} {balance : U128}
    (ran : runs (step host chainId) (start processor) actions = some node) (running : node.processing = true)
    (waits : node.adapter = .reply peerId (.accountState address nonce balance)) :
    node.Quiet ∧
      blocksSubmitted actions = (actions.filterMap NodeAction.takes).filterMap NetworkEvent.pending ∧
      ∃ deliveries, deliverAll host processor (blocksSubmitted actions) = some (deliveries, node.processor) := by
  obtain ⟨unrefused, quiet, _⟩ := (runs_answering ran).reply peerId address nonce balance waits
  obtain ⟨events, taken, _⟩ := (runs_serving ran).asking _ (by rw [waits]; rfl) (by rw [waits]; simp)
  have handed := blocks_asking ran unrefused (by rw [waits]; rfl) taken
  obtain ⟨done, deliveries, submitted, _, delivered⟩ := runs_workedOff ran running
  refine ⟨quiet, ?_, deliveries, ?_⟩
  · rw [handed, taken, List.filterMap_append]
    exact (List.append_nil _).symm
  · have all : blocksSubmitted actions = done.filterMap ProcessorMessage.pending := by
      rw [blocksSubmitted, (List.nil_append _).symm.trans submitted, List.filterMap_append, quiet running, List.append_nil]
    rw [all]
    exact delivered

/-- With no block in its queue, the processor goes on with blocks that are handed over later. -/
theorem runs_quiet {origin : Node} (ran : runs (step host chainId) origin actions = some node) (quiet : origin.Quiet)
    (running : node.processing = true) :
    ∃ more deliveries, more <+: blocksSubmitted actions ∧
      deliverAll host origin.processor more = some (deliveries, node.processor) := by
  obtain ⟨done, deliveries, submitted, _, delivered⟩ := runs_workedOff ran running
  refine ⟨_, deliveries, ?_, delivered⟩
  have blocks := congrArg (List.filterMap ProcessorMessage.pending) submitted
  rw [List.filterMap_append, quiet (runs_running ran running), List.nil_append, List.filterMap_append] at blocks
  rw [blocksSubmitted, blocks]
  exact List.prefix_append _ _

/-- When the last account was told, the processor had worked off all the requests up to it. -/
theorem runs_told (ran : runs (step host chainId) (start processor) actions = some node)
    (running : node.processing = true) (told : accountsTold actions ≠ []) :
    ∃ events reached deliveries more deliveries',
      events <+: actions.filterMap NodeAction.takes ∧
      accountsTold actions = serves (serveAccount host) processor events ∧
      deliverAll host processor (events.filterMap NetworkEvent.pending) = some (deliveries, reached) ∧
      deliverAll host reached more = some (deliveries', node.processor) ∧
      events.filterMap NetworkEvent.pending ++ more <+:
        (actions.filterMap NodeAction.takes).filterMap NetworkEvent.pending := by
  have handed := blocksSubmitted_prefix ran running
  obtain ⟨_, _, split⟩ := (List.eq_nil_or_concat' _).resolve_left told
  obtain ⟨first, _, rfl, _, tail⟩ := List.filterMap_eq_append_iff.mp split
  obtain ⟨skipped, action, after, rfl, _, tells, silent⟩ := List.filterMap_eq_cons_iff.mp tail
  obtain ⟨peerId, address, nonce, balance, isOk, rfl⟩ := NodeAction.tellsAccount_eq tells
  rw [← List.append_assoc] at ran handed ⊢
  generalize first ++ skipped = before at ran handed ⊢
  obtain ⟨here, next, ran, stepped, later⟩ := runs_split ran
  have alive := runs_running later running
  obtain ⟨_, _, waits, same, received⟩ := AdapterPoint.step_replied (stepAdapter_adapterSteps stepped).moved
  cases same
  obtain ⟨quiet, taken, deliveries, delivered⟩ := reply_settled ran (step_running stepped alive) waits
  obtain ⟨processor', requests⟩ : next.processor = here.processor ∧ next.requests = here.requests := by
    cases stepAdapter_adapterSteps stepped <;> exact ⟨rfl, rfl⟩
  have quiet' : next.Quiet := fun _ => requests ▸ quiet (step_running stepped alive)
  obtain ⟨more, deliveries', among, delivered'⟩ := runs_quiet later quiet' running
  rw [processor'] at delivered'
  have whole := runs_append_eq_some.mpr ⟨here, ran, runs_singleton.trans stepped⟩
  have all := (runs_serving whole).idle (by rw [received]; rfl) alive
  have told' : accountsTold (before ++ .adapter (.replied (.sendMessage peerId
      (.accountState address nonce balance)) isOk) :: after) = serves (serveAccount host) processor
        (before.filterMap NodeAction.takes) := by
    rw [List.append_cons, accountsTold, List.filterMap_append, silent, List.append_nil]
    exact all.trans (congrArg _ ((takes_concat _ _).trans (List.append_nil _)))
  refine ⟨_, here.processor, deliveries, more, deliveries', ?_, told', taken ▸ delivered, delivered', ?_⟩
  · rw [List.filterMap_append]
    exact List.prefix_append _ _
  · refine List.IsPrefix.trans ?_ handed
    rw [blocksSubmitted_append, ← taken]
    exact (List.prefix_append_right_inj _).mpr among

end Node

section Peer
variable {host : Host} {peerId : PeerId} {processor : BlockProcessor} {events : List NetworkEvent}

def Message.isAccount : Message → Bool
  | .accountState .. => true
  | .ping | .pong | .status .. | .transactions .. | .getBlockHeaders .. | .newBlockHashes .. | .blockHeaders ..
  | .newBlock .. | .disconnect .. | .getAccountState .. | .getChainHead | .chainHead .. => false

def NetworkEvent.isQuery : NetworkEvent → Bool
  | .getAccountState .. => true
  | .newBlock .. | .getChainHead _ => false

/-- The accounts that were told to one peer. -/
theorem answersMade_accounts (peerId : PeerId) (actions : List NodeAction) :
    (answersMade peerId actions).filter Message.isAccount =
      ((accountsTold actions).filter fun answer => answer.1 = peerId).map Prod.snd := by
  unfold answersMade accountsTold
  rw [← List.filterMap_eq_filter, ← List.filterMap_eq_filter, List.filterMap_filterMap, ← List.filterMap_eq_map,
    List.filterMap_filterMap, List.filterMap_filterMap]
  refine List.filterMap_congr fun action _ => ?_
  match action with
  | .adapter (.replied (.sendMessage other message) isOk) =>
    by_cases here : other = peerId <;> cases message <;>
      simp [NodeAction.answers, PeerEvent.answer, NodeAction.tellsAccount, Message.isAccount, here, Option.guard]
  | .adapter (.replied (.connected ..) _) | .adapter (.replied (.disconnected _) _)
  | .adapter (.replied (.message ..) _) | .adapter (.received _) | .adapter (.submitted ..) | .adapter (.answered _)
  | .adapter (.readHead _) | .accepted | .connection .. | .manager _ | .processed | .signalled | .unlistened
  | .finished _ => rfl

/-- What other peers ask does not change the answers to a peer, if they send no blocks. -/
theorem serves_filter (alone : ∀ event ∈ events, event.pending ≠ none → event.peerId = peerId) :
    ((serves (serveAccount host) processor events).filter fun answer => answer.1 = peerId) =
      serves (serveAccount host) processor (events.filter fun event => event.peerId = peerId) := by
  induction events generalizing processor with
  | nil => rfl
  | cons event rest ih =>
    obtain ⟨here, later⟩ := List.forall_mem_cons.mp alone
    cases event with
    | newBlock block other =>
      have own : other = peerId := here (by simp [NetworkEvent.pending])
      subst own
      rw [List.filter_cons_of_pos (by simp [NetworkEvent.peerId])]
      simp only [serves, serveAccount]
      cases deliver host processor ⟨block, other⟩ with
      | none => rfl
      | some step => exact ih later
    | getAccountState address other =>
      simp only [serves, serveAccount]
      rw [List.filter_append, ih later]
      by_cases own : other = peerId
      · rw [List.filter_cons_of_pos (by simp [NetworkEvent.peerId, own])]
        simp only [serves, serveAccount]
        congr 1
        cases processor.pipeline.provider.state.lookup address <;> simp [own]
      · rw [List.filter_cons_of_neg (by simp [NetworkEvent.peerId, own])]
        cases processor.pipeline.provider.state.lookup address <;> simp [own]
    | getChainHead other =>
      simp only [serves, serveAccount]
      by_cases own : other = peerId
      · rw [List.filter_cons_of_pos (by simp [NetworkEvent.peerId, own])]
        exact ih later
      · rw [List.filter_cons_of_neg (by simp [NetworkEvent.peerId, own])]
        exact ih later

theorem serves_length_le :
    (serves (serveAccount host) processor events).length ≤ events.countP NetworkEvent.isQuery := by
  induction events generalizing processor with
  | nil => exact Nat.le_refl _
  | cons event rest ih =>
    cases event with
    | newBlock block other =>
      simp only [serves, serveAccount]
      cases deliver host processor ⟨block, other⟩ with
      | none => exact Nat.zero_le _
      | some step => exact ih
    | getAccountState address other =>
      have later := @ih processor
      have query : (NetworkEvent.getAccountState address other).isQuery = true := rfl
      simp only [serves, serveAccount, List.length_append, List.countP_cons_of_pos query]
      cases processor.pipeline.provider.state.lookup address <;> simp <;> omega
    | getChainHead other => exact ih

/-- A client that comes to its end with a query has asked all of it when the last query is taken up. -/
theorem prefix_of_queries {first whole : List NetworkEvent} (below : first <+: whole)
    (many : whole.countP NetworkEvent.isQuery ≤ first.countP NetworkEvent.isQuery)
    (last : ∀ event, whole.getLast? = some event → event.isQuery = true) : first = whole := by
  obtain ⟨rest, rfl⟩ := below
  rw [List.countP_append] at many
  cases ended : rest.getLast? with
  | none => rw [List.getLast?_eq_none_iff.mp ended, List.append_nil]
  | some event =>
    have query := last event (by rw [List.getLast?_append, ended]; rfl)
    have some := List.countP_pos_iff.mpr ⟨event, List.mem_of_getLast? ended, query⟩
    omega

end Peer

section Client
variable {peerId : PeerId}

theorem prefix_delivered {messages first : List Message} {rest : List Wait}
    (same : delivered messages = delivered first ++ rest) : first <+: messages := by
  obtain ⟨front, back, rfl, here, _⟩ := List.map_eq_append_iff.mp same
  have injective : Function.Injective fun message : Message => Wait.next (some (.ok message)) := by
    intro a b equal
    cases equal
    rfl
  rw [List.map_injective_iff.mpr injective here]
  exact List.prefix_append _ _

theorem turns_requests (turns : List ClientTurn) :
    (turns.map ClientTurn.message).filterMap (·.request peerId) = turns.map (ClientTurn.request peerId) := by
  induction turns with
  | nil => rfl
  | cons turn rest ih => cases turn <;> simpa [ClientTurn.message, Message.request, ClientTurn.request] using ih

theorem turns_queries (peerId : PeerId) (turns : List ClientTurn) :
    (turns.map (ClientTurn.request peerId)).countP NetworkEvent.isQuery = (turns.filterMap ClientTurn.answer).length := by
  induction turns with
  | nil => rfl
  | cons turn rest ih =>
    cases turn <;>
      simp only [List.map_cons, List.countP_cons, List.filterMap_cons, ih, ClientTurn.request, ClientTurn.answer] <;> rfl

theorem rounds_blocks (rounds : List BlockRound) :
    ((rounds.flatMap BlockRound.turns).map (ClientTurn.request peerId)).filterMap NetworkEvent.pending =
      rounds.map fun round => ⟨round.block, peerId⟩ := by
  have asks (snapshots : List AccountSnapshot) :
      ((snapshots.map ClientTurn.asked).map (ClientTurn.request peerId)).filterMap NetworkEvent.pending = [] := by
    simp [ClientTurn.request, NetworkEvent.pending, Function.comp_def]
  induction rounds with
  | nil => rfl
  | cons round rest ih =>
    rw [List.flatMap_cons, List.map_append, List.filterMap_append, ih, BlockRound.turns, List.map_append,
      List.filterMap_append, asks, List.map_cons, List.filterMap_cons]
    simp only [ClientTurn.request, NetworkEvent.pending, asks]
    rfl

theorem Finished.requests {host : Host} {options : ClientOptions} {config : GenesisConfig} {framed : FramedStream}
    {client : Client} {rounds : List BlockRound} (finished : Finished host options config framed client rounds) :
    client.framed.written.filterMap (·.request peerId) =
      .getChainHead peerId :: (rounds.flatMap BlockRound.turns).map (ClientTurn.request peerId) := by
  obtain ⟨headHash, written⟩ := finished.written
  rw [written, List.filterMap_append, ← turns_requests]
  exact List.append_nil _

/-- The last turn of a client that sends transactions is a query. -/
theorem Finished.last_asked {host : Host} {options : ClientOptions} {config : GenesisConfig} {framed : FramedStream}
    {client : Client} {rounds : List BlockRound} (finished : Finished host options config framed client rounds)
    (sends : options.transactionsPerBlock ≠ 0) (works : rounds ≠ []) :
    ∃ earlier snapshot, rounds.flatMap BlockRound.turns = earlier ++ [.asked snapshot] := by
  obtain ⟨earlier, final, rfl⟩ := (List.eq_nil_or_concat' rounds).resolve_left works
  have confirmed := finished.confirmed final (by simp)
  have asked : final.after ≠ [] := by
    intro empty
    have length := confirmed.moved.length_eq
    rw [empty, confirmed.senders] at length
    exact sends (UInt8.toNat_inj.mp length)
  obtain ⟨others, snapshot, ended⟩ := (List.eq_nil_or_concat' final.after).resolve_left asked
  refine ⟨earlier.flatMap BlockRound.turns ++
    (final.before.map .asked ++ .submitted final.block :: (final.polled ++ others).map .asked), snapshot, ?_⟩
  simp [BlockRound.turns, ended]

end Client

section Confirmed
variable {host : Host} {chainId : U64} {processor : BlockProcessor} {node : Node} {actions : List NodeAction}
  {peerId : PeerId} {options : ClientOptions} {config : GenesisConfig} {client : Client} {rounds : List BlockRound}

/-- The accounts that the client has read were told to it. -/
theorem Finished.told (ran : runs (Node.step host chainId) (Node.start processor) actions = some node)
    (finished : Finished host options config (clientOf peerId actions) client rounds) :
    (rounds.flatMap BlockRound.turns).filterMap ClientTurn.answer <+:
      ((accountsTold actions).filter fun answer => answer.1 = peerId).map Prod.snd := by
  obtain ⟨_, _, _, _, _, waits⟩ := finished.waits
  have read := (prefix_delivered waits).filter Message.isAnswer
  have made := (read.trans (Node.runs_delivering ran peerId).written).filter Message.isAccount
  rw [answersMade_accounts, List.filter_filter] at made
  have accounts (turns : List ClientTurn) : (turns.filterMap ClientTurn.answer).filter
      (fun message => message.isAccount && message.isAnswer) = turns.filterMap ClientTurn.answer := by
    refine List.filter_eq_self.mpr fun message member => ?_
    obtain ⟨turn, _, told⟩ := List.mem_filterMap.mp member
    cases turn <;> cases told
    rfl
  rw [← accounts]
  exact made

/-- Only one peer sends blocks. -/
theorem taken_alone (ran : runs (Node.step host chainId) (Node.start processor) actions = some node)
    (alone : ∀ other, other ≠ peerId → blocksOf other (receivedMessages (actionsOf other actions)) = []) :
    ∀ event ∈ actions.filterMap NodeAction.takes, event.pending ≠ none → event.peerId = peerId := by
  intro event member block
  by_contra other
  obtain ⟨pending, here⟩ := Option.ne_none_iff_exists'.mp block
  have own : event ∈ requestsTaken event.peerId actions := List.mem_filter.mpr ⟨member, decide_eq_true rfl⟩
  have listed : pending ∈ blocksOf event.peerId (receivedMessages (actionsOf event.peerId actions)) :=
    List.mem_filterMap.mpr ⟨event, (prefix_requestsTaken ran event.peerId).subset own, here⟩
  rw [alone _ other] at listed
  cases listed

theorem pending_alone {events : List NetworkEvent}
    (alone : ∀ event ∈ events, event.pending ≠ none → event.peerId = peerId) :
    (events.filter fun event => event.peerId = peerId).filterMap NetworkEvent.pending =
      events.filterMap NetworkEvent.pending := by
  rw [← pending_filter]
  refine List.filter_eq_self.mpr fun pending member => ?_
  obtain ⟨event, listed, here⟩ := List.mem_filterMap.mp member
  have own := alone event listed (by rw [here]; simp)
  cases event <;> cases here
  exact decide_eq_true own

/-- The processor of the node is where the blocks of the client lead to, once the client is at its end. -/
theorem Finished.settled (ran : runs (Node.step host chainId) (Node.start processor) actions = some node)
    (running : node.processing = true)
    (alone : ∀ event ∈ actions.filterMap NodeAction.takes, event.pending ≠ none → event.peerId = peerId)
    (sends : options.transactionsPerBlock ≠ 0)
    (finished : Finished host options config (clientOf peerId actions) client rounds)
    (arrived : receivedMessages (actionsOf peerId actions) <+: client.framed.written) :
    ∃ deliveries,
      deliverAll host processor (rounds.map fun round => ⟨round.block, peerId⟩) = some (deliveries, node.processor) := by
  have requested : requestsTaken peerId actions <+:
      .getChainHead peerId :: (rounds.flatMap BlockRound.turns).map (ClientTurn.request peerId) := by
    rw [← finished.requests]
    exact (prefix_requestsTaken ran peerId).trans (arrived.filterMap _)
  have bounded : (actions.filterMap NodeAction.takes).filterMap NetworkEvent.pending <+:
      rounds.map fun round => ⟨round.block, peerId⟩ := by
    rw [← pending_alone alone, ← rounds_blocks]
    exact requested.filterMap _
  by_cases works : rounds = []
  · subst works
    have quiet : (Node.start processor).Quiet := fun _ => rfl
    obtain ⟨more, deliveries, among, delivered⟩ := Node.runs_quiet ran quiet running
    rw [List.prefix_nil.mp ((among.trans (Node.blocksSubmitted_prefix ran running)).trans bounded)] at delivered
    exact ⟨deliveries, delivered⟩
  · obtain ⟨earlier, snapshot, shape⟩ := finished.last_asked sends works
    have answered := (finished.told ran).length_le
    rw [List.length_map, ← turns_queries peerId] at answered
    have told : accountsTold actions ≠ [] := by
      intro none
      rw [none, shape, List.map_append, List.countP_append] at answered
      exact absurd answered (by simp [ClientTurn.request, NetworkEvent.isQuery])
    obtain ⟨events, reached, deliveries, more, deliveries', early, serves', delivered, delivered', among⟩ :=
      Node.runs_told ran running told
    have alone' : ∀ event ∈ events, event.pending ≠ none → event.peerId = peerId := fun event member =>
      alone event (early.subset member)
    have all : (events.filter fun event => event.peerId = peerId) =
        .getChainHead peerId :: (rounds.flatMap BlockRound.turns).map (ClientTurn.request peerId) := by
      refine prefix_of_queries ((early.filter _).trans requested) ?_ fun event last => ?_
      · rw [serves', serves_filter alone'] at answered
        rw [List.countP_cons_of_neg (by simp [NetworkEvent.isQuery])]
        exact answered.trans serves_length_le
      · rw [shape, List.map_append, List.map_singleton, ← List.cons_append, List.getLast?_concat] at last
        cases last
        rfl
    have whole : events.filterMap NetworkEvent.pending = rounds.map fun round => ⟨round.block, peerId⟩ := by
      rw [← pending_alone alone', all, ← rounds_blocks]
      rfl
    -- all the blocks are worked off with the last query, so no other one can follow
    have none : more = [] := by
      have length := (among.trans bounded).length_le
      rw [List.length_append, whole] at length
      exact List.length_eq_zero_iff.mp (by omega)
    rw [none] at delivered'
    cases delivered'
    exact ⟨deliveries, whole ▸ delivered⟩

/-- A client that comes to its end has all its blocks in the chain of the node, whatever the order of the tasks of the
node and however often the client had to ask, if the node gets blocks from no other peer. So it does not come to its
end if its blocks are larger than those which the node takes. -/
theorem client_confirms {signer : Signer} {order : Iteration Address} {patience : Nat → Nat}
    (started : setupNode host signer options.toGenesisOptions false = .ok (some processor))
    (ran : runs (Node.step host chainId) (Node.start processor) actions = some node)
    (running : node.processing = true)
    (alone : ∀ other, other ≠ peerId → blocksOf other (receivedMessages (actionsOf other actions)) = [])
    (sends : options.transactionsPerBlock ≠ 0)
    (conversed : clientMain { host with iteration := order } signer options (some (clientOf peerId actions)) patience =
      .ok client)
    (arrived : receivedMessages (actionsOf peerId actions) <+: client.framed.written)
    (ended : .disconnect "all blocks sent" ∈ client.framed.written) :
    ∃ blocks : List Block, blocksOf peerId client.framed.written = blocks.map (⟨·, peerId⟩) ∧
      blocks.length = options.blockCount.toNat ∧
      (∀ block ∈ blocks, block.transactions.length = options.transactionsPerBlock.toNat) ∧
      node.processor.blockList = processor.blockList ++ blocks ∧
      (blocks ≠ [] → options.transactionsPerBlock.toNat ≤ 100 ∧
        client.builder.currentHead = (node.processor.chainHead.number, node.processor.chainHead.hash)) := by
  obtain ⟨config, builder, rounds, setup, finished⟩ := clientMain_ok rfl conversed ended
  have same : nodeAccounts { host with iteration := order } signer options.toGenesisOptions
      options.toGenesisOptions.indices [] =
      nodeAccounts host signer options.toGenesisOptions options.toGenesisOptions.indices [] :=
    nodeAccounts_iteration order _ _
  rw [setupClient_eq, same] at setup
  rw [setupNode_eq] at started
  obtain ⟨accounts, made, started⟩ := Outcome.bind_eq_ok.mp started
  rw [made, Outcome.ok_bind] at setup
  cases started
  cases setup
  have derived : Derived host signer options.toGenesisOptions accounts := by
    obtain ⟨_, rfl, each⟩ := nodeAccounts_ok made
    exact each
  have reach := Reach.boot ((options.toGenesisOptions.genesis host accounts).boot_eq host)
  have finished : Finished host options _ (clientOf peerId actions) client rounds :=
    ⟨finished.confirmed, finished.length, finished.written, finished.waits, finished.head⟩
  have alone := taken_alone ran alone
  have present : ∀ address ∈ GenesisConfig.addresses ⟨options.chainId, accounts, options.genesisTimestamp⟩,
      Present ((options.toGenesisOptions.genesis host accounts).processor host) address := by
    intro address listed
    obtain ⟨account, member, rfl⟩ := List.mem_map.mp listed
    rw [Present, Outcome.okOr_eq_ok.mp (derived.getAccount member)]
    rfl
  have requested := (prefix_requestsTaken ran peerId).trans (arrived.filterMap _)
  rw [finished.requests] at requested
  have truthful : Truthful host peerId ((options.toGenesisOptions.genesis host accounts).processor host)
      (rounds.flatMap BlockRound.turns) := by
    refine (finished.told ran).trans (List.IsPrefix.map _ ?_)
    refine ((Node.runs_serving ran).told.filter _).trans ?_
    rw [serves_filter alone]
    exact (prefix_serves requested).trans List.prefix_rfl
  obtain ⟨deliveries, delivered⟩ := finished.settled ran running alone sends arrived
  obtain ⟨_, after, delivered', committed⟩ := rounds_committed reach rfl present sends finished.confirmed truthful
  rw [delivered] at delivered'
  cases delivered'
  have holds := reach.holds.1
  have sized : ∀ block ∈ rounds.map BlockRound.block,
      block.transactions.length = options.transactionsPerBlock.toNat := by
    intro block member
    obtain ⟨round, listed, rfl⟩ := List.mem_map.mp member
    exact (finished.confirmed round listed).transactions
  refine ⟨rounds.map BlockRound.block, ?_, ?_, sized, ?_, fun works => ⟨?_, ?_⟩⟩
  · rw [blocksOf, finished.requests, List.map_map]
    exact rounds_blocks rounds
  · rw [List.length_map, finished.length]
  · rw [holds.blockList, (Ledger.Holds.committed committed holds).blockList]
  · obtain ⟨block, member⟩ := List.exists_mem_of_ne_nil _ works
    rw [← sized block member]
    exact committed.sizeWithin block member
  · obtain ⟨earlier, last, ended⟩ := (List.eq_nil_or_concat' rounds).resolve_left fun empty => works (by rw [empty]; rfl)
    rw [finished.head last (by rw [ended, List.getLast?_concat])]
    exact (committed.head (by rw [ended, List.map_append, List.map_singleton, List.getLast?_concat])).symm

end Confirmed

section Sample

/-- A client that sends one block, in which its two accounts send to each other. -/
def onceClient : ClientOptions := ⟨pairOptions, 1, 2, false⟩

def firstAddress : Address := .ofNat 0x1a642f0e3c3af545e7acbd38b07251b3990914f1

def secondAddress : Address := .ofNat 0x5050a4f4b3f9338c3472dcc01a87c76a144b3c9c

def pairGenesisHash : B256 := .ofNat 0xd42a4f1e30554e7542c9afa83cea191a6f10f9f9f7ce24c03ae133f2e9b86089

def onceBlock : Block :=
  ⟨{ parentHash := pairGenesisHash
     beneficiary := .zero
     stateRoot := .zero
     transactionsRoot := .zero
     gasLimit := 30000000
     gasUsed := 42000
     timestamp := 17
     number := 1 },
    [⟨.legacy 0 1000000000 21000 (some secondAddress) 1000000000000000000 [], 37,
        .ofNat 0x4a004fecef1ad698688e7b22c4c0e21cc1c74cb07f78bcedd47c80b5d47b5e41,
        .ofNat 0x57576a8812a9c687284fbf5e4d5765671fc9f5de9cba0d2d799830bdfdf006c0⟩,
      ⟨.legacy 0 1000000000 21000 (some firstAddress) 1000000000000000000 [], 38,
        .ofNat 0x796d2e6529ef90038e2a56e629ea63007fb9342fbcd0c1f66f27b6b6ce7a887f,
        .ofNat 0x5549503f7e7c508601fea2ded41b4546659484bce402ba42452e1f02fdef6203⟩]⟩

/-- The client asks for one of its accounts and is told. -/
def onceQuery (address : Address) (account : Account) : List NodeAction :=
  sampleAsk (.getAccountState address) (.getAccountState address samplePeer) ++ [
    .adapter (.received (some (.getAccountState address samplePeer))),
    .adapter (.submitted (.getAccountState address) true),
    .processed,
    .adapter (.answered (some (.ok account)))] ++ sampleReply (.accountState address account.nonce account.balance)

/-- A node with one client, from the handshake to the confirmation of its block. -/
def onceRun : List NodeAction := [
    .accepted,
    .connection samplePeer (.received (some (.ok (.status 1 pairGenesisHash 0)))),
    .connection samplePeer (.readHead ⟨0, pairGenesisHash, 0⟩),
    .connection samplePeer (.wrote (.status 1 pairGenesisHash 0) true),
    .connection samplePeer (.emitted (.connected samplePeer ⟨samplePeer⟩) true),
    .manager (.received (some (.connected samplePeer ⟨samplePeer⟩)))] ++
  askHead ++ answerHead ⟨0, pairGenesisHash, 0⟩ ++
  onceQuery firstAddress { Account.default with balance := 3000000000000000000 } ++
  onceQuery secondAddress { Account.default with balance := 3000000000000000000 } ++
  sampleAsk (.newBlock onceBlock 42000) (.newBlock onceBlock samplePeer) ++ [
    .adapter (.received (some (.newBlock onceBlock samplePeer))),
    .adapter (.submitted (.newBlock onceBlock samplePeer) true),
    .processed] ++
  onceQuery firstAddress { Account.default with nonce := 1, balance := 2999979000000000000 } ++
  onceQuery secondAddress { Account.default with nonce := 1, balance := 2999979000000000000 }

theorem client_confirms_once : ∃ processor node client, ∃ blocks : List Block,
    setupNode pairHost pairSigner onceClient.toGenesisOptions false = .ok (some processor) ∧
    runs (Node.step pairHost 1) (Node.start processor) onceRun = some node ∧
    clientMain pairHost pairSigner onceClient (some (clientOf samplePeer onceRun)) (fun _ => 0) =
      .ok client ∧
    blocks.length = 1 ∧ node.processor.blockList = processor.blockList ++ blocks := by
  have possible : ((setupNode pairHost pairSigner onceClient.toGenesisOptions false).toOption.bind
      fun started => started.bind fun processor =>
        (runs (Node.step pairHost 1) (Node.start processor) onceRun).map Node.processing) = some true := by
    decide +kernel
  have talks : (clientMain pairHost pairSigner onceClient (some (clientOf samplePeer onceRun))
      fun _ => 0).toOption.map (fun client => client.framed.written) =
        some (receivedMessages (actionsOf samplePeer onceRun) ++ [.disconnect "all blocks sent"]) := by
    decide +kernel
  obtain ⟨_, started, possible⟩ := Option.bind_eq_some_iff.mp possible
  obtain ⟨processor, rfl, possible⟩ := Option.bind_eq_some_iff.mp possible
  obtain ⟨node, ran, running⟩ := Option.map_eq_some_iff.mp possible
  obtain ⟨client, conversed, written⟩ := Option.map_eq_some_iff.mp talks
  rw [Outcome.toOption_eq_some] at started conversed
  have alone (other : PeerId) (apart : other ≠ samplePeer) :
      blocksOf other (receivedMessages (actionsOf other onceRun)) = [] := by
    simp [onceRun, onceQuery, askHead, answerHead, readHeadFor, sampleAsk, sampleReply, sampleRelay, sampleWrite,
      actionsOf, apart.symm, receivedMessages, blocksOf]
  have conversed' : clientMain { pairHost with iteration := pairHost.iteration } pairSigner
      onceClient (some (clientOf samplePeer onceRun)) (fun _ => 0) = .ok client := conversed
  obtain ⟨blocks, _, length, _, chain, _⟩ := client_confirms started ran running alone (by decide) conversed'
    (by rw [written]; exact List.prefix_append _ _) (by rw [written]; exact List.mem_append_right _ List.mem_cons_self)
  exact ⟨processor, node, client, blocks, started, ran, conversed, length, chain⟩

end Sample

end MiniEthNode
