import MiniEthNode.Networking.Requests
import MiniEthNode.Networking.TestClient

namespace MiniEthNode
open Rust

def Message.isAnswer : Message → Bool
  | .accountState .. | .chainHead .. => true
  | .ping | .pong | .status .. | .transactions .. | .getBlockHeaders .. | .newBlockHashes .. | .blockHeaders ..
  | .newBlock .. | .disconnect .. | .getAccountState .. | .getChainHead => false

theorem Broadcast.message_isAnswer (broadcast : Broadcast) : broadcast.message.isAnswer = false := by
  cases broadcast <;> rfl

/-- The connection that an event comes from. -/
def PeerEvent.source : PeerEvent → Option PeerId
  | .connected peerId _ | .disconnected peerId | .message peerId _ => some peerId
  | .sendMessage .. => none

/-- The answer to one peer that an event carries. -/
def PeerEvent.answer (client : PeerId) : PeerEvent → Option Message
  | .sendMessage peerId reply => if peerId = client then some reply else none
  | .connected .. | .disconnected _ | .message .. => none

def ManagerPoint.sending (client : PeerId) : ManagerPoint → Option Message
  | .send peerId _ message => if peerId = client then some message else none
  | .select | .forward _ | .iterate _ | .broadcast .. | .ended => none

def ConnectionPoint.writing : ConnectionPoint → Option Message
  | .write message => some message
  | .select _ | .refuse _ | .readHead | .reply _ | .register | .forward _ | .leave | .ended => none

/-- The peer that the adapter works for. -/
def AdapterPoint.serves : AdapterPoint → Option PeerId
  | .submit _ peerId | .query _ peerId | .await _ peerId | .readHead peerId | .reply peerId _ => some peerId
  | .receive | .ended => none

section Adapter
variable {point next : AdapterPoint} {action : AdapterAction}

theorem AdapterPoint.Steps.serves {peerId : PeerId} (steps : point.Steps action next)
    (serves : next.serves = some peerId) :
    point.serves = some peerId ∨ ∃ event, action = .received (some event) ∧ event.peerId = peerId := by
  cases steps with
  | newBlock | getAccountState | getChainHead =>
    cases serves
    exact .inr ⟨_, rfl, rfl⟩
  | queried | answered | readHead =>
    cases serves
    exact .inl rfl
  | closed | submitted | unqueried | refused | dropped | replied => cases serves

theorem AdapterPoint.Steps.isAnswer {peerId : PeerId} {message : Message}
    (steps : point.Steps action (.reply peerId message)) : message.isAnswer = true := by
  cases steps <;> rfl

end Adapter

namespace NodeAction

/-- A connection tells the manager something. -/
def tells (peerId : PeerId) : NodeAction → Option PeerEvent
  | .connection other (.emitted event true) => if other = peerId then some event else none
  | _ => none

/-- The manager hears something from a connection. -/
def hears (peerId : PeerId) : NodeAction → Option PeerEvent
  | .manager (.received (some event)) => if event.source = some peerId then some event else none
  | _ => none

/-- The adapter has an answer for the peer, whether or not the manager is there to take it. -/
def answers (peerId : PeerId) : NodeAction → Option Message
  | .adapter (.replied event _) => event.answer peerId
  | _ => none

def relays (peerId : PeerId) : NodeAction → Option Message
  | .manager (.received (some event)) => event.answer peerId
  | _ => none

def enqueues (peerId : PeerId) : NodeAction → Option Message
  | .manager (.enqueued sender message true) => if sender = ⟨peerId⟩ ∧ message.isAnswer then some message else none
  | _ => none

def writes (peerId : PeerId) : NodeAction → Option Message
  | .connection other (.wrote frame true) => if other = peerId ∧ frame.isAnswer then some frame else none
  | _ => none

theorem enqueues_of_apart {peerId : PeerId} {action : NodeAction}
    (apart : ∀ message, action ≠ .manager (.enqueued ⟨peerId⟩ message true)) : action.enqueues peerId = none := by
  unfold enqueues
  split
  · refine if_neg ?_
    rintro ⟨rfl, _⟩
    exact apart _ rfl
  · rfl

theorem writes_of_apart {peerId : PeerId} {action : NodeAction} (apart : ∀ own, action ≠ .connection peerId own) :
    action.writes peerId = none := by
  unfold writes
  split
  · refine if_neg ?_
    rintro ⟨rfl, _⟩
    exact apart _ rfl
  · rfl

end NodeAction

/-- The answers that the adapter has made for a peer. -/
def answersMade (peerId : PeerId) (actions : List NodeAction) : List Message :=
  actions.filterMap (NodeAction.answers peerId)

/-- The answers that were written to a peer. -/
def answersWritten (peerId : PeerId) (actions : List NodeAction) : List Message :=
  (framesTo peerId actions).filter Message.isAnswer

theorem answersWritten_eq (peerId : PeerId) (actions : List NodeAction) :
    answersWritten peerId actions = actions.filterMap (NodeAction.writes peerId) := by
  unfold answersWritten framesTo actionsOf
  rw [List.filterMap_filterMap, ← List.filterMap_eq_filter, List.filterMap_filterMap]
  refine List.filterMap_congr fun action _ => ?_
  match action with
  | .connection other (.wrote frame true) =>
    by_cases here : other = peerId <;> simp [here, NodeAction.writes, Option.guard]
  | .connection other (.wrote frame false) | .connection other (.received _) | .connection other .unwound
  | .connection other (.took _) | .connection other (.readHead _) | .connection other (.emitted ..) =>
    by_cases here : other = peerId <;> simp [here, NodeAction.writes]
  | .accepted | .manager _ | .adapter _ | .processed | .signalled | .unlistened | .finished _ => rfl

theorem emittedEvents_actionsOf (peerId : PeerId) (actions : List NodeAction) :
    emittedEvents (actionsOf peerId actions) = actions.filterMap (NodeAction.tells peerId) := by
  unfold emittedEvents actionsOf
  rw [List.filterMap_filterMap]
  refine List.filterMap_congr fun action _ => ?_
  match action with
  | .connection other (.emitted event true) => by_cases here : other = peerId <;> simp [here, NodeAction.tells]
  | .connection other (.emitted event false) | .connection other (.wrote ..) | .connection other (.received _)
  | .connection other .unwound | .connection other (.took _) | .connection other (.readHead _) =>
    by_cases here : other = peerId <;> simp [here, NodeAction.tells]
  | .accepted | .manager _ | .adapter _ | .processed | .signalled | .unlistened | .finished _ => rfl

namespace Manager
variable {manager next : Manager} {action : ManagerAction} {id : PeerId}

theorem lookup_removeStale_of_not_mem {stalePeers : List PeerId} (fresh : id ∉ stalePeers)
    (peerMap : HashMap PeerId PeerSender) : (removeStale peerMap stalePeers).lookup id = peerMap.lookup id := by
  induction stalePeers generalizing peerMap with
  | nil => rfl
  | cons first rest ih =>
    obtain ⟨other, later⟩ := not_or.mp (mt List.mem_cons.mpr fresh)
    refine (ih later _).trans ?_
    rw [HashMap.lookup_erase_ite, if_neg other]

/-- A peer that a send has failed for, in a loop over the peers. -/
def Stale (manager : Manager) (id : PeerId) : Prop :=
  ∃ broadcast rest stalePeers, manager.point = .broadcast broadcast rest stalePeers ∧ id ∈ stalePeers

/-- A send to a peer fails. -/
def Fails (manager : Manager) (action : ManagerAction) (id : PeerId) : Prop :=
  ∃ sender message, manager.Holds id sender ∧ action = .enqueued sender message false

theorem stale_advance {peerMap : HashMap PeerId PeerSender} {broadcast : Broadcast}
    {rest : List (PeerId × PeerSender)} {stalePeers : List PeerId}
    (stale : (advance peerMap broadcast rest stalePeers).Stale id) : id ∈ stalePeers := by
  obtain ⟨_, _, _, waits, member⟩ := stale
  rcases advance_cases peerMap broadcast rest stalePeers with same | ⟨_, ended⟩ | ⟨_, select⟩
  · cases same.symm.trans waits
    exact member
  · rw [ended] at waits
    cases waits
  · cases select.symm.trans waits

theorem lookup_advance {peerMap : HashMap PeerId PeerSender} {broadcast : Broadcast}
    {rest : List (PeerId × PeerSender)} {stalePeers : List PeerId} (fresh : id ∉ stalePeers) :
    (advance peerMap broadcast rest stalePeers).peerMap.lookup id = peerMap.lookup id ∨
      (advance peerMap broadcast rest stalePeers).point = .ended := by
  unfold advance
  split
  · exact .inl rfl
  · exact .inr rfl
  · exact .inl (lookup_removeStale_of_not_mem fresh peerMap)
  · exact .inl (lookup_removeStale_of_not_mem fresh peerMap)

/-- A peer becomes stale when a send to it fails. -/
theorem Steps.stale (steps : manager.Steps action next) (stale : next.Stale id) :
    manager.Stale id ∨ manager.Fails action id := by
  cases steps with
  | @received event select =>
    obtain ⟨_, _, _, waits, _⟩ := stale
    rcases handleEvent_cases select event with same | ⟨_, _, _, same, _⟩ | ⟨_, same⟩ | ⟨_, same, _⟩ <;>
      cases same.symm.trans waits
  | exhausted | ticked | shutdown | sent | forwarded =>
    obtain ⟨_, _, _, waits, _⟩ := stale
    cases waits
  | iterated => cases stale_advance stale
  | @broadcast _ other sender rest stalePeers isOk waits =>
    have member := stale_advance stale
    cases isOk with
    | true => exact .inl ⟨_, _, _, waits, member⟩
    | false =>
      rcases List.mem_append.mp member with earlier | last
      · exact .inl ⟨_, _, _, waits, earlier⟩
      · cases List.mem_singleton.mp last
        exact .inr ⟨_, _, .inr (.inr ⟨_, _, _, waits, List.mem_cons_self⟩), rfl⟩

theorem lookup_handleEvent {sender : PeerSender} (listed : manager.peerMap.lookup id = some sender) (event : PeerEvent) :
    (manager.handleEvent event).peerMap.lookup id = some sender ∨ event = .disconnected id ∨
      ∃ other, event = .connected id other := by
  have sends (peerId : PeerId) (message : Message) : (manager.sendTo peerId message).peerMap = manager.peerMap := by
    unfold sendTo
    split <;> rfl
  cases event with
  | connected peerId other =>
    by_cases same : id = peerId
    · subst same
      exact .inr (.inr ⟨other, rfl⟩)
    · refine .inl (Eq.trans ?_ listed)
      exact (HashMap.lookup_insert_ite _ _ _ _).trans (if_neg same)
  | disconnected peerId =>
    by_cases same : id = peerId
    · subst same
      exact .inr (.inl rfl)
    · refine .inl (Eq.trans ?_ listed)
      exact (HashMap.lookup_erase_ite _ _ _).trans (if_neg same)
  | sendMessage peerId message =>
    refine .inl (Eq.trans ?_ listed)
    exact congrArg _ (sends peerId message)
  | message peerId message =>
    cases message with
    | ping =>
      refine .inl (Eq.trans ?_ listed)
      exact congrArg _ (sends peerId .pong)
    | transactions | newBlock | getAccountState | getChainHead | status | pong | getBlockHeaders | newBlockHashes
    | blockHeaders | disconnect | accountState | chainHead => exact .inl listed

/-- A registered peer stays so until it has left or a send to it has failed. -/
theorem Steps.listed {sender : PeerSender} (steps : manager.Steps action next)
    (listed : manager.peerMap.lookup id = some sender) :
    next.peerMap.lookup id = some sender ∨ next.point = .ended ∨ manager.Stale id ∨ manager.Fails action id ∨
      action = .received (some (.disconnected id)) ∨ ∃ other, action = .received (some (.connected id other)) := by
  cases steps with
  | @received event =>
    rcases lookup_handleEvent listed event with kept | rfl | ⟨other, rfl⟩
    · exact .inl kept
    · exact .inr (.inr (.inr (.inr (.inl rfl))))
    · exact .inr (.inr (.inr (.inr (.inr ⟨other, rfl⟩))))
  | exhausted => exact .inr (.inl rfl)
  | ticked | shutdown | forwarded => exact .inl listed
  | @sent peerId sender' message isOk waits =>
    cases isOk with
    | true => exact .inl listed
    | false =>
      by_cases same : id = peerId
      · subst same
        exact .inr (.inr (.inr (.inl ⟨sender', message, .inr (.inl ⟨_, waits⟩), rfl⟩)))
      · refine .inl (Eq.trans ?_ listed)
        exact (HashMap.lookup_erase_ite _ _ _).trans (if_neg same)
  | iterated =>
    rcases lookup_advance (List.not_mem_nil (a := id)) with kept | ended
    · exact .inl (kept.trans listed)
    · exact .inr (.inl ended)
  | @broadcast broadcast other sender' rest stalePeers isOk waits =>
    by_cases earlier : id ∈ stalePeers
    · exact .inr (.inr (.inl ⟨_, _, _, waits, earlier⟩))
    · by_cases failed : isOk = false ∧ id = other
      · obtain ⟨rfl, rfl⟩ := failed
        exact .inr (.inr (.inr (.inl ⟨_, _, .inr (.inr ⟨_, _, _, waits, List.mem_cons_self⟩), rfl⟩)))
      · have fresh : id ∉ (if isOk then stalePeers else stalePeers ++ [other]) := by
          cases isOk with
          | true => exact earlier
          | false => simpa [earlier] using failed
        rcases lookup_advance fresh with kept | ended
        · exact .inl (kept.trans listed)
        · exact .inr (.inl ended)

theorem sending_sendTo {manager : Manager} (select : manager.point = .select) (client peerId : PeerId)
    (message : Message) :
    (manager.sendTo peerId message).point.sending client =
      if peerId = client ∧ (manager.peerMap.lookup peerId).isSome then some message else none := by
  unfold sendTo
  cases manager.peerMap.lookup peerId with
  | none => simp [select, ManagerPoint.sending]
  | some sender => simp [ManagerPoint.sending]

theorem sending_advance (peerMap : HashMap PeerId PeerSender) (broadcast : Broadcast)
    (rest : List (PeerId × PeerSender)) (stalePeers : List PeerId) (client : PeerId) :
    (advance peerMap broadcast rest stalePeers).point.sending client = none := by
  unfold advance
  split <;> rfl

/-- An answer that the manager takes in for a registered peer it puts into the channel of the peer, before it
takes in anything else. -/
theorem Steps.sending (steps : manager.Steps action next)
    (senders : ∀ id sender, manager.Holds id sender → sender = ⟨id⟩)
    (listed : ∀ message, action = .received (some (.sendMessage id message)) →
      manager.peerMap.lookup id = some ⟨id⟩ ∧ message.isAnswer = true)
    (alive : ∀ message, action ≠ .enqueued ⟨id⟩ message false) :
    (manager.point.sending id).toList.filter Message.isAnswer ++ (NodeAction.relays id (.manager action)).toList =
      (NodeAction.enqueues id (.manager action)).toList ++ (next.point.sending id).toList.filter Message.isAnswer := by
  cases steps with
  | @received event select =>
    rw [select]
    cases event with
    | connected peerId sender =>
      change [] = (manager.point.sending id).toList.filter Message.isAnswer
      rw [select]
      rfl
    | disconnected peerId =>
      change [] = (manager.point.sending id).toList.filter Message.isAnswer
      rw [select]
      rfl
    | sendMessage peerId message =>
      change (PeerEvent.answer id (.sendMessage peerId message)).toList =
        ((manager.sendTo peerId message).point.sending id).toList.filter _
      rw [sending_sendTo select]
      by_cases same : peerId = id
      · subst same
        obtain ⟨found, answer⟩ := listed message rfl
        simp [PeerEvent.answer, found, answer]
      · simp [PeerEvent.answer, same]
    | message peerId message =>
      cases message with
      | ping =>
        change [] = ((manager.sendTo peerId .pong).point.sending id).toList.filter _
        rw [sending_sendTo select]
        split <;> rfl
      | transactions | newBlock | getAccountState | getChainHead => rfl
      | status | pong | getBlockHeaders | newBlockHashes | blockHeaders | disconnect | accountState | chainHead =>
        change [] = (manager.point.sending id).toList.filter Message.isAnswer
        rw [select]
        rfl
  | exhausted waits | ticked waits | shutdown waits | forwarded waits =>
    rw [waits]
    rfl
  | @sent peerId sender message isOk waits =>
    cases senders peerId sender (.inr (.inl ⟨message, waits⟩))
    rw [waits]
    by_cases same : peerId = id
    · subst same
      cases isOk with
      | true => cases answer : message.isAnswer <;> simp [ManagerPoint.sending, NodeAction.relays, NodeAction.enqueues, answer]
      | false => exact (alive message rfl).elim
    · cases isOk <;> simp [ManagerPoint.sending, NodeAction.relays, NodeAction.enqueues, same]
  | iterated waits =>
    rw [waits, sending_advance]
    rfl
  | @broadcast broadcast other sender rest stalePeers isOk waits =>
    rw [waits, sending_advance]
    have silent := broadcast.message_isAnswer
    cases isOk <;> simp [ManagerPoint.sending, NodeAction.relays, NodeAction.enqueues, silent]

end Manager

namespace ConnectionPoint
variable {context : ConnectionContext} {point next : ConnectionPoint} {action : ConnectionAction}

/-- A session begins with the registration of the peer. -/
theorem Steps.enters (steps : Steps context point action next) (outside : ¬ point.InSession) (inside : next.InSession) :
    point = .register ∧ next = .select .established := by
  cases steps with
  | @message state message =>
    cases state with
    | awaitingStatus =>
      cases message with
      | status chainId headHash totalDifficulty =>
        change (if chainId ≠ context.expectedChainId then refuse chainId else .readHead).InSession at inside
        split at inside <;> cases inside
      | ping | pong | transactions | getBlockHeaders | newBlockHashes | blockHeaders | newBlock | disconnect
      | getAccountState | accountState | getChainHead | chainHead => cases inside
    | established => exact (outside trivial).elim
  | @outbound state rx =>
    cases state with
    | awaitingStatus =>
      cases rx <;> cases inside
    | established => exact (outside trivial).elim
  | @replied snapshot isOk => cases isOk <;> cases inside
  | @registered isOk =>
    cases isOk with
    | true => exact ⟨rfl, rfl⟩
    | false => cases inside
  | forwarded | written => exact (outside trivial).elim
  | codecError | closed | unwound | refused | readHead | left => cases inside

/-- In its session a connection writes the message that it has at hand. -/
theorem Steps.writing (steps : Steps context point action next) (before : point.InSession) (after : next.InSession)
    (noTook : ∀ rx, action ≠ .took rx) (peerId : PeerId) :
    point.writing.toList.filter Message.isAnswer =
      (NodeAction.writes peerId (.connection peerId action)).toList ++ next.writing.toList.filter Message.isAnswer := by
  cases steps with
  | @message state message =>
    cases state with
    | awaitingStatus => cases before
    | established =>
      cases message with
      | status => cases after
      | ping | pong | transactions | getBlockHeaders | newBlockHashes | blockHeaders | newBlock | disconnect
      | getAccountState | accountState | getChainHead | chainHead => rfl
  | outbound => exact (noTook _ rfl).elim
  | @forwarded message isOk =>
    cases isOk with
    | true => rfl
    | false => cases after
  | @written message isOk =>
    cases isOk with
    | true => cases answer : message.isAnswer <;> simp [ConnectionPoint.writing, NodeAction.writes, answer]
    | false => cases after
  | codecError | closed | unwound | refused | left => cases after
  | readHead | replied | registered => cases before

end ConnectionPoint

namespace Node
variable {host : Host} {chainId : U64} {processor : BlockProcessor} {node next : Node} {action : NodeAction}
  {actions : List NodeAction} {peerId : PeerId}

section Hearing

/-- An event of a connection moves from the connection into the channel and from there to the manager. -/
theorem step_heard (stepped : node.step host chainId action = some next) (peerId : PeerId) :
    node.events.items.filter (fun event => event.source = some peerId) ++ (action.tells peerId).toList =
      (action.hears peerId).toList ++ next.events.items.filter (fun event => event.source = some peerId) := by
  cases step_steps stepped with
  | @emitted other event connection point events found moved _ sent =>
    have source : event.source = some other := by
      generalize connection.point = here at moved
      cases moved <;> rfl
    by_cases here : other = peerId <;> simp [NodeAction.tells, NodeAction.hears, sent, source, here]
  | @received event manager rest moved taken =>
    by_cases here : event.source = some peerId <;> simp [NodeAction.tells, NodeAction.hears, taken, here]
  | @replied event adapter events moved _ sent =>
    obtain ⟨_, _, _, rfl, _⟩ := AdapterPoint.step_replied moved
    simp [NodeAction.tells, NodeAction.hears, sent, PeerEvent.source]
  | @outside other part connection point found moved noTook noEvent =>
    have silent : NodeAction.tells peerId (.connection other part) = none := by
      cases part with
      | emitted event isOk => exact (noEvent event isOk rfl).elim
      | received | unwound | took | readHead | wrote => rfl
    rw [silent]
    exact List.append_nil _
  | accepted | took | unemitted | ticked | iterated | shutdown | enqueued | unqueued | forwarded | unforwarded =>
    exact List.append_nil _
  | aside noConnection noManager _ _ events =>
    have silent : action.tells peerId = none ∧ action.hears peerId = none := by
      cases action with
      | connection other part => exact (noConnection other part rfl).elim
      | manager part => exact (noManager part rfl).elim
      | accepted | adapter | processed | signalled | unlistened | finished => exact ⟨rfl, rfl⟩
    rw [silent.1, silent.2, events]
    exact List.append_nil _

/-- The manager hears what a connection tells in the order in which it is told. -/
theorem runs_heard (ran : runs (step host chainId) (start processor) actions = some node) (peerId : PeerId) :
    actions.filterMap (NodeAction.hears peerId) <+: emittedEvents (actionsOf peerId actions) := by
  have flow := runs_conserved (P := fun _ => True) (fun _ _ _ _ _ => trivial)
    (fun here action next _ stepped => step_heard stepped peerId) ran trivial
  rw [emittedEvents_actionsOf]
  change actions.filterMap _ = _ at flow
  rw [flow]
  exact List.prefix_append _ _

theorem mem_hears {event : PeerEvent} (heard : NodeAction.manager (.received (some event)) ∈ actions)
    (source : event.source = some peerId) : event ∈ actions.filterMap (NodeAction.hears peerId) :=
  List.mem_filterMap.mpr ⟨_, heard, if_pos source⟩

/-- A message of the peer has come to the manager. -/
def Requested (actions : List NodeAction) (peerId : PeerId) : Prop :=
  ∃ message, NodeAction.manager (.received (some (.message peerId message))) ∈ actions

theorem Requested.mono {first second : List NodeAction} (sub : first ⊆ second) (requested : Requested first peerId) :
    Requested second peerId :=
  requested.imp fun _ heard => sub heard

/-- Before a message the manager has heard of the peer itself. -/
theorem Requested.connected (ran : runs (step host chainId) (start processor) actions = some node)
    (requested : Requested actions peerId) :
    NodeAction.manager (.received (some (.connected peerId ⟨peerId⟩))) ∈ actions := by
  obtain ⟨message, heard⟩ := requested
  have order := runs_heard ran peerId
  have ordered : Ordered (context chainId peerId) (actions.filterMap (NodeAction.hears peerId)) := by
    rcases (runs_handshakeSafe (runs_connection ran peerId)).ordered with left | ⟨opened, same, below⟩
    · exact .inl (order.trans left)
    · exact .inr ⟨opened, same, order.trans below⟩
  have connected := ordered.connected_mem (mem_hears heard rfl)
  obtain ⟨action, member, told⟩ := List.mem_filterMap.mp connected
  unfold NodeAction.hears at told
  split at told
  · split at told <;> cases told
    exact member
  · cases told

theorem announced_of_heard (ran : runs (step host chainId) (start processor) actions = some node)
    (heard : NodeAction.manager (.received (some (.connected peerId ⟨peerId⟩))) ∈ actions) : Announced actions peerId := by
  have connected := (runs_heard ran peerId).subset (mem_hears heard rfl)
  exact mem_actionsOf.mp (mem_emittedEvents.mp connected)

theorem Requested.announced (ran : runs (step host chainId) (start processor) actions = some node)
    (requested : Requested actions peerId) : Announced actions peerId :=
  announced_of_heard ran (requested.connected ran)

end Hearing

section Solicited

/-- An answer is made where the adapter has it at hand. -/
theorem step_answers {message : Message} (stepped : node.step host chainId action = some next)
    (answers : action.answers peerId = some message) :
    node.adapter = .reply peerId message ∧ ∃ isOk, action = .adapter (.replied (.sendMessage peerId message) isOk) := by
  unfold NodeAction.answers at answers
  split at answers
  · rename_i event isOk
    obtain ⟨other, reply, waits, rfl, _⟩ := AdapterPoint.step_replied (stepAdapter_adapterSteps stepped).moved
    obtain ⟨rfl, same⟩ := Option.ite_none_right_eq_some.mp answers
    cases same
    exact ⟨waits, isOk, rfl⟩
  · cases answers

/-- Whatever the adapter does for a peer, it does for a message of the peer. -/
structure Solicited (actions : List NodeAction) (node : Node) : Prop where
  forward : ∀ event, node.manager.point = .forward event → Requested actions event.peerId
  network : ∀ event ∈ node.network.items, Requested actions event.peerId
  adapter : ∀ peerId, node.adapter.serves = some peerId → Requested actions peerId
  answer : ∀ peerId message, node.adapter = .reply peerId message → message.isAnswer = true
  events : ∀ peerId message, PeerEvent.sendMessage peerId message ∈ node.events.items →
    Requested actions peerId ∧ message.isAnswer = true
  made : ∀ peerId message, message ∈ answersMade peerId actions → Requested actions peerId

/-- The channel to the adapter holds what the manager had at hand. -/
theorem step_network (stepped : node.step host chainId action = some next) {event : NetworkEvent}
    (member : event ∈ next.network.items) : event ∈ node.network.items ∨ node.manager.point = .forward event := by
  by_cases own : ∃ part, action = .adapter part
  · obtain ⟨part, rfl⟩ := own
    cases stepAdapter_adapterSteps stepped with
    | received _ taken =>
      rw [taken]
      exact .inl (List.mem_cons_of_mem _ member)
    | closed | submitted | unsubmitted | answered | dropped | readHead | replied | unreplied => exact .inl member
  · cases step_steps stepped with
    | forwarded moved _ sent =>
      rw [sent, List.mem_append, List.mem_singleton] at member
      rcases member with earlier | rfl
      · exact .inl earlier
      · cases moved with
        | forwarded waits => exact .inr waits
    | accepted | outside | took | emitted | unemitted | received | ticked | iterated | shutdown | enqueued | unqueued
    | unforwarded => exact .inl member
    | replied => exact (own ⟨_, rfl⟩).elim
    | aside _ _ _ _ _ _ apart =>
      rw [(apart (not_exists.mp own)).2] at member
      exact .inl member

theorem Solicited.step (solicited : Solicited actions node) (stepped : node.step host chainId action = some next) :
    Solicited (actions ++ [action]) next := by
  have steps := step_steps stepped
  have sub : actions ⊆ actions ++ [action] := List.subset_append_left _ _
  have last : action ∈ actions ++ [action] := List.mem_append_right _ List.mem_cons_self
  refine ⟨?_, ?_, ?_, ?_, ?_, ?_⟩
  · intro event waits
    rcases steps.manager with same | ⟨own, rfl, moved, _⟩
    · rw [same] at waits
      exact (solicited.forward event waits).mono sub
    · obtain ⟨message, rfl⟩ := moved.forward waits
      exact ⟨message, last⟩
  · intro event member
    rcases step_network stepped member with earlier | waits
    · exact (solicited.network event earlier).mono sub
    · exact (solicited.forward event waits).mono sub
  · intro peerId serves
    by_cases own : ∃ part, action = .adapter part
    · obtain ⟨part, rfl⟩ := own
      have adapterSteps := stepAdapter_adapterSteps stepped
      rcases (AdapterPoint.step_steps adapterSteps.moved).serves serves with before | ⟨event, rfl, rfl⟩
      · exact (solicited.adapter peerId before).mono sub
      · cases adapterSteps with
        | received _ taken => exact (solicited.network event (taken ▸ List.mem_cons_self)).mono sub
    · rw [steps.apart_adapter (not_exists.mp own)] at serves
      exact (solicited.adapter peerId serves).mono sub
  · intro peerId message waits
    by_cases own : ∃ part, action = .adapter part
    · obtain ⟨part, rfl⟩ := own
      have moved := (stepAdapter_adapterSteps stepped).moved
      rw [waits] at moved
      exact (AdapterPoint.step_steps moved).isAnswer
    · exact solicited.answer peerId message ((steps.apart_adapter (not_exists.mp own)).symm.trans waits)
  · intro peerId message member
    rcases steps.event_mem member with earlier | ⟨_, _, same | same | ⟨_, same⟩⟩ | ⟨_, _, same, waits⟩
    · exact (solicited.events peerId message earlier).imp_left (Requested.mono sub)
    · cases same
    · cases same
    · cases same
    · cases same
      exact ⟨(solicited.adapter peerId (by rw [waits]; rfl)).mono sub, solicited.answer peerId message waits⟩
  · intro peerId message member
    rw [answersMade, List.filterMap_append, List.mem_append] at member
    rcases member with earlier | here
    · exact (solicited.made peerId message earlier).mono sub
    · obtain ⟨own, member, answers⟩ := List.mem_filterMap.mp here
      cases List.mem_singleton.mp member
      obtain ⟨waits, _⟩ := step_answers stepped answers
      exact (solicited.adapter peerId (by rw [waits]; rfl)).mono sub

theorem runs_solicited (ran : runs (step host chainId) (start processor) actions = some node) :
    Solicited actions node := by
  refine runs_history (P := Solicited) ?_ (fun _ _ _ _ _ solicited stepped => solicited.step stepped) ran
  refine ⟨?_, ?_, ?_, ?_, ?_, ?_⟩
  · intro event waits
    cases waits
  · intro event member
    cases member
  · intro peerId serves
    cases serves
  · intro peerId message waits
    cases waits
  · intro peerId message member
    cases member
  · intro peerId message member
    cases member

end Solicited

section Enlisted

/-- What the manager receives was in its channel. -/
theorem Steps.received_mem {event : PeerEvent} (steps : node.Steps chainId (.manager (.received (some event))) next) :
    event ∈ node.events.items := by
  cases steps with
  | received _ taken => exact taken ▸ List.mem_cons_self
  | aside _ noManager => exact (noManager _ rfl).elim

theorem Steps.pointOf_ended (steps : node.Steps chainId action next) (numbered : node.Numbered)
    (ended : node.pointOf peerId = .ended) : next.pointOf peerId = .ended := by
  by_cases own : ∃ part, action = .connection peerId part
  · obtain ⟨part, rfl⟩ := own
    have moved := steps.pointOf_own numbered
    rw [ended] at moved
    cases moved
  · exact (steps.pointOf_other numbered (not_exists.mp own)).trans ended

/-- A send fails only when the task of the connection is gone. -/
theorem Steps.unqueued_ended {message : Message}
    (steps : node.Steps chainId (.manager (.enqueued ⟨peerId⟩ message false)) next) :
    node.pointOf peerId = .ended := by
  cases steps with
  | unqueued _ found ended =>
    rw [pointOf, found]
    exact ended
  | aside _ noManager => exact (noManager _ rfl).elim

theorem Steps.failed {own : ManagerAction} (steps : node.Steps chainId (.manager own) next)
    (senders : ∀ id sender, node.manager.Holds id sender → sender = ⟨id⟩) (fails : node.manager.Fails own peerId) :
    node.pointOf peerId = .ended := by
  obtain ⟨sender, message, holds, rfl⟩ := fails
  cases senders peerId sender holds
  exact steps.unqueued_ended

/-- A peer that the manager has heard of is in its map for as long as both tasks go on. -/
structure Enlisted (actions : List NodeAction) (node : Node) : Prop where
  left : ∀ peerId, PeerEvent.disconnected peerId ∈ node.events.items → node.pointOf peerId = .ended
  stale : ∀ peerId, node.manager.Stale peerId → node.pointOf peerId = .ended
  listed : ∀ peerId, NodeAction.manager (.received (some (.connected peerId ⟨peerId⟩))) ∈ actions →
    node.pointOf peerId ≠ .ended → node.manager.point ≠ .ended → node.manager.peerMap.lookup peerId = some ⟨peerId⟩

theorem Enlisted.step (enlisted : Enlisted actions node) (numbered : node.Numbered) (sourced : Sourced actions node)
    (steps : node.Steps chainId action next) : Enlisted (actions ++ [action]) next := by
  have senders (id : PeerId) (sender : PeerSender) (holds : node.manager.Holds id sender) : sender = ⟨id⟩ :=
    (sourced.senders id sender holds).1
  refine ⟨?_, ?_, ?_⟩
  · intro peerId member
    rcases steps.event_mem member with earlier | ⟨other, rfl, same | same | ⟨_, same⟩⟩ | ⟨_, _, same, _⟩
    · exact steps.pointOf_ended numbered (enlisted.left peerId earlier)
    · cases same
    · cases same
      have moved := steps.pointOf_own numbered
      generalize node.pointOf peerId = here, next.pointOf peerId = there at moved ⊢
      cases moved
      rfl
    · cases same
    · cases same
  · intro peerId stale
    refine steps.pointOf_ended numbered ?_
    rcases steps.manager with same | ⟨own, rfl, moved, _⟩
    · exact enlisted.stale peerId (same ▸ stale)
    · rcases moved.stale stale with before | fails
      · exact enlisted.stale peerId before
      · exact steps.failed senders fails
  · intro peerId heard alive running
    by_cases now : action = .manager (.received (some (.connected peerId ⟨peerId⟩)))
    · subst now
      have moved := steps.manager_own
      generalize next.manager = manager at moved
      cases moved with
      | received => exact (HashMap.lookup_insert_ite _ _ _ _).trans (if_pos rfl)
    · have earlier : NodeAction.manager (.received (some (.connected peerId ⟨peerId⟩))) ∈ actions := by
        rcases List.mem_append.mp heard with earlier | last
        · exact earlier
        · exact (now (List.mem_singleton.mp last).symm).elim
      have aliveBefore : node.pointOf peerId ≠ .ended := fun ended => alive (steps.pointOf_ended numbered ended)
      have runningBefore : node.manager.point ≠ .ended := fun ended => running (steps.manager_ended ended)
      have before := enlisted.listed peerId earlier aliveBefore runningBefore
      rcases steps.manager with same | ⟨own, rfl, moved, taken⟩
      · rw [same]
        exact before
      · rcases moved.listed before with kept | ended | stale | fails | rfl | ⟨other, rfl⟩
        · exact kept
        · exact (running ended).elim
        · exact (aliveBefore (enlisted.stale peerId stale)).elim
        · exact (aliveBefore (steps.failed senders fails)).elim
        · exact (aliveBefore (enlisted.left peerId (taken _ rfl))).elim
        · cases (sourced.events _ (taken _ rfl)).1
          exact (now rfl).elim

theorem runs_enlisted (ran : runs (step host chainId) (start processor) actions = some node) :
    Enlisted actions node := by
  refine runs_history (P := Enlisted) ?_ ?_ ran
  · refine ⟨?_, ?_, ?_⟩
    · intro peerId member
      cases member
    · rintro peerId ⟨_, _, _, waits, _⟩
      cases waits
    · intro peerId member
      cases member
  · intro actions action here next first enlisted stepped
    exact enlisted.step (runs_numbered first) (runs_sourced first) (step_steps stepped)

end Enlisted

section Delivering

/-- The messages for a peer at its connection, the oldest first. -/
def outboundOf (node : Node) (peerId : PeerId) : List Message :=
  ((node.connections.lookup peerId).map fun connection =>
    connection.point.writing.toList ++ connection.outbound.items).getD []

/-- The answers on their way from the adapter to the stream of a peer, the oldest first. -/
def answersInside (node : Node) (peerId : PeerId) : List Message :=
  (node.outboundOf peerId).filter Message.isAnswer ++
    ((node.manager.point.sending peerId).toList.filter Message.isAnswer ++
      node.events.items.filterMap (PeerEvent.answer peerId))

theorem Steps.outboundOf (steps : node.Steps chainId action next) (numbered : node.Numbered)
    (before : (node.pointOf peerId).InSession) (after : (next.pointOf peerId).InSession) :
    (node.outboundOf peerId).filter Message.isAnswer ++ (action.enqueues peerId).toList =
      (action.writes peerId).toList ++ (next.outboundOf peerId).filter Message.isAnswer := by
  have connection := steps.connection numbered peerId
  unfold pointOf at before after
  unfold Node.outboundOf
  generalize node.connections.lookup peerId = here, next.connections.lookup peerId = there at connection before after ⊢
  cases connection with
  | accepted => cases before
  | @moved own connection point noTook moved =>
    have written := moved.writing before after noTook peerId
    simp only [Option.map_some, Option.getD_some, List.filter_append, written, NodeAction.enqueues,
      Option.toList_none, List.append_nil, List.append_assoc]
  | @took message connection point rest moved taken =>
    obtain ⟨here, outbound⟩ := connection
    change outbound.items = _ at taken
    cases moved with
    | @outbound state =>
      cases state with
      | awaitingStatus => cases before
      | established =>
        simp [taken, ConnectionPoint.writing, ConnectionPoint.handleOutbound, NodeAction.enqueues, NodeAction.writes]
  | @enqueued message connection outbound sent =>
    cases answer : message.isAnswer <;> simp [sent, NodeAction.enqueues, NodeAction.writes, answer]
  | apart noConnection noMessage =>
    rw [NodeAction.writes_of_apart noConnection, NodeAction.enqueues_of_apart noMessage]
    exact List.append_nil _

/-- The answers that the manager is there to take. -/
def accepted (node : Node) (peerId : PeerId) (action : NodeAction) : List Message :=
  if node.manager.point = .ended then [] else (action.answers peerId).toList

/-- An answer moves from the adapter into the channel and from there to the manager. -/
theorem step_accepted (stepped : node.step host chainId action = some next) (peerId : PeerId) :
    node.events.items.filterMap (PeerEvent.answer peerId) ++ node.accepted peerId action =
      (action.relays peerId).toList ++ next.events.items.filterMap (PeerEvent.answer peerId) := by
  have quiet (silent : action.answers peerId = none) : node.accepted peerId action = [] := by
    unfold accepted
    split
    · rfl
    · rw [silent]
      rfl
  by_cases own : ∃ part, action = .adapter part
  · obtain ⟨part, rfl⟩ := own
    cases part with
    | replied event isOk =>
      obtain ⟨adapter, _, stepped⟩ := Option.bind_eq_some_iff.mp stepped
      rcases sendEvent_eq_some.mp stepped with ⟨rfl, alive, events, sent, rfl⟩ | ⟨rfl, ended, rfl⟩
      · change _ ++ node.accepted peerId _ = events.items.filterMap _
        change events.items = node.events.items ++ [event] at sent
        rw [sent, List.filterMap_append, accepted, if_neg alive]
        cases told : event.answer peerId <;> simp [NodeAction.answers, told]
      · change node.manager.point = .ended at ended
        rw [accepted, if_pos ended]
        exact List.append_nil _
    | received event | submitted message isOk | answered response | readHead head =>
      have same : next.events = node.events := by
        cases stepAdapter_adapterSteps stepped <;> rfl
      rw [quiet rfl, same]
      exact List.append_nil _
  · have silent : action.answers peerId = none := by
      cases action <;> first | rfl | exact (own ⟨_, rfl⟩).elim
    rw [quiet silent, List.append_nil]
    cases step_steps stepped with
    | @emitted other event connection point events found moved _ sent =>
      have none : event.answer peerId = none := by
        generalize connection.point = here at moved
        cases moved <;> rfl
      simp [NodeAction.relays, sent, none]
    | @received event manager rest moved taken =>
      cases told : event.answer peerId <;> simp [NodeAction.relays, taken, told]
    | replied => exact (own ⟨_, rfl⟩).elim
    | accepted | outside | took | unemitted | ticked | iterated | shutdown | enqueued | unqueued | forwarded
    | unforwarded => rfl
    | aside noConnection noManager _ _ events =>
      have silent : action.relays peerId = none := by
        cases action <;> first | rfl | exact (noManager _ rfl).elim
      rw [silent, events]
      rfl

/-- A step of the node moves an answer by at most one place. -/
theorem step_answersInside (ran : runs (step host chainId) (start processor) actions = some node)
    (stepped : node.step host chainId action = some next) (before : (node.pointOf peerId).InSession)
    (after : (next.pointOf peerId).InSession) :
    node.answersInside peerId ++ node.accepted peerId action =
      (action.writes peerId).toList ++ next.answersInside peerId := by
  have steps := step_steps stepped
  have alive : node.pointOf peerId ≠ .ended := by
    intro ended
    rw [ended] at before
    exact before
  have senders (id : PeerId) (sender : PeerSender) (holds : node.manager.Holds id sender) : sender = ⟨id⟩ :=
    ((runs_sourced ran).senders id sender holds).1
  have connection := steps.outboundOf (runs_numbered ran) before after
  have channel := step_accepted stepped peerId
  have manager : (node.manager.point.sending peerId).toList.filter Message.isAnswer ++ (action.relays peerId).toList =
      (action.enqueues peerId).toList ++ (next.manager.point.sending peerId).toList.filter Message.isAnswer := by
    by_cases own : ∃ part, action = .manager part
    · obtain ⟨part, rfl⟩ := own
      have moved := steps.manager_own
      refine moved.sending senders ?_ ?_
      · rintro message rfl
        obtain ⟨requested, answer⟩ := (runs_solicited ran).events peerId message steps.received_mem
        refine ⟨(runs_enlisted ran).listed peerId (requested.connected ran) alive ?_, answer⟩
        intro ended
        generalize next.manager = manager at moved
        cases moved with
        | received select => cases ended.symm.trans select
      · rintro message rfl
        exact alive steps.unqueued_ended
    · have silent : action.relays peerId = none ∧ action.enqueues peerId = none := by
        cases action <;> first | exact ⟨rfl, rfl⟩ | exact (own ⟨_, rfl⟩).elim
      rcases steps.manager with same | ⟨part, same, _⟩
      · rw [same, silent.1, silent.2]
        exact List.append_nil _
      · exact (own ⟨part, same⟩).elim
  simp only [answersInside, List.append_assoc]
  rw [channel, ← List.append_assoc (List.filter _ (Option.toList _)), manager, List.append_assoc, ← List.append_assoc,
    connection, List.append_assoc]

/-- What was written are the first answers that were made. While the session goes on none is lost between. -/
structure Delivering (peerId : PeerId) (actions : List NodeAction) (node : Node) : Prop where
  written : answersWritten peerId actions <+: answersMade peerId actions
  session : (node.pointOf peerId).InSession →
    answersWritten peerId actions ++ node.answersInside peerId <+: answersMade peerId actions
  whole : (node.pointOf peerId).InSession → node.manager.point ≠ .ended →
    answersMade peerId actions = answersWritten peerId actions ++ node.answersInside peerId

theorem answersMade_concat (peerId : PeerId) (actions : List NodeAction) (action : NodeAction) :
    answersMade peerId (actions ++ [action]) = answersMade peerId actions ++ (action.answers peerId).toList :=
  filterMap_concat _ _ _

theorem answersWritten_concat (peerId : PeerId) (actions : List NodeAction) (action : NodeAction) :
    answersWritten peerId (actions ++ [action]) = answersWritten peerId actions ++ (action.writes peerId).toList := by
  rw [answersWritten_eq, answersWritten_eq, filterMap_concat]

/-- A session begins with a step of the connection. -/
theorem Steps.enters (steps : node.Steps chainId action next) (numbered : node.Numbered)
    (outside : ¬ (node.pointOf peerId).InSession) (inside : (next.pointOf peerId).InSession) :
    ∃ own, action = .connection peerId own ∧ node.pointOf peerId = .register ∧
      next.pointOf peerId = .select .established := by
  obtain ⟨own, rfl⟩ : ∃ own, action = .connection peerId own := by
    by_contra other
    exact outside ((steps.pointOf_other numbered (not_exists.mp other)) ▸ inside)
  exact ⟨own, rfl, (steps.pointOf_own numbered).enters outside inside⟩

/-- A connection that is about to announce its peer has not done so before. -/
theorem register_unannounced (ran : runs (step host chainId) (start processor) actions = some node)
    (waits : node.pointOf peerId = .register) : ¬ Announced actions peerId := by
  intro announced
  have progressed := runs_progressed (runs_connection ran peerId)
  rw [waits] at progressed
  have silent : emittedEvents (actionsOf peerId actions) = [] := Greeted.emittedEvents progressed
  have told := mem_emittedEvents.mpr (mem_actionsOf.mpr announced)
  rw [silent] at told
  cases told

/-- An answer is written in the session, which goes on. -/
theorem Steps.writes_session {message : Message} (steps : node.Steps chainId action next) (numbered : node.Numbered)
    (writes : action.writes peerId = some message) :
    (node.pointOf peerId).InSession ∧ (next.pointOf peerId).InSession := by
  unfold NodeAction.writes at writes
  split at writes
  · rename_i other frame
    obtain ⟨⟨rfl, answer⟩, _⟩ := Option.ite_none_right_eq_some.mp writes
    have moved := steps.pointOf_own numbered
    generalize node.pointOf other = here, next.pointOf other = there at moved ⊢
    cases moved with
    | refused => cases answer
    | replied => cases answer
    | written => exact ⟨trivial, trivial⟩
  · cases writes

/-- Nothing is on its way to a peer before its session. -/
theorem answers_unannounced (ran : runs (step host chainId) (start processor) actions = some node)
    (unknown : ¬ Announced actions peerId) :
    answersMade peerId actions = [] ∧ (node.pointOf peerId = .register → node.answersInside peerId = []) := by
  have solicited := runs_solicited ran
  have sourced := runs_sourced ran
  have unasked : ¬ Requested actions peerId := fun requested => unknown (requested.announced ran)
  refine ⟨?_, fun waits => ?_⟩
  · refine List.eq_nil_iff_forall_not_mem.mpr fun message member => ?_
    exact unasked (solicited.made peerId message member)
  · have outbound : node.outboundOf peerId = [] := by
      unfold outboundOf
      unfold pointOf at waits
      cases found : node.connections.lookup peerId with
      | none => rfl
      | some connection =>
        rw [found] at waits
        change connection.point = .register at waits
        have empty : connection.outbound.items = [] :=
          List.eq_nil_iff_forall_not_mem.mpr fun message member =>
            unknown (sourced.outbound peerId connection message found member)
        simp [waits, empty, ConnectionPoint.writing]
    have sending : node.manager.point.sending peerId = none := by
      unfold ManagerPoint.sending
      split
      · rename_i other sender message here
        refine if_neg fun same => ?_
        subst same
        exact unknown (sourced.senders other sender (.inr (.inl ⟨message, here⟩))).2
      all_goals rfl
    have events : node.events.items.filterMap (PeerEvent.answer peerId) = [] := by
      refine List.filterMap_eq_nil_iff.mpr fun event member => ?_
      cases event with
      | sendMessage other message =>
        refine if_neg fun same => ?_
        subst same
        exact unasked (solicited.events other message member).1
      | connected | disconnected | message => rfl
    rw [answersInside, outbound, sending, events]
    rfl

/-- The registration itself brings nothing on its way. -/
theorem answersInside_registered {own : ConnectionAction} (numbered : node.Numbered)
    (stepped : node.step host chainId (.connection peerId own) = some next) (waits : node.pointOf peerId = .register)
    (after : next.pointOf peerId = .select .established) : next.answersInside peerId = node.answersInside peerId := by
  have steps := step_steps stepped
  have outbound : next.outboundOf peerId = node.outboundOf peerId := by
    have connection := steps.connection numbered peerId
    unfold pointOf at waits after
    unfold outboundOf
    generalize node.connections.lookup peerId = here, next.connections.lookup peerId = there at connection waits after ⊢
    cases connection with
    | @moved _ connection point =>
      change connection.point = .register at waits
      change point = .select .established at after
      simp [waits, after, ConnectionPoint.writing]
    | @took _ connection _ _ moved =>
      change connection.point = .register at waits
      rw [waits] at moved
      cases moved
    | apart noConnection => exact (noConnection _ rfl).elim
  have manager : next.manager = node.manager := by
    rcases steps.manager with same | ⟨_, same, _⟩
    · exact same
    · cases same
  have events : node.events.items.filterMap (PeerEvent.answer peerId) =
      next.events.items.filterMap (PeerEvent.answer peerId) := by
    have flow := step_accepted stepped peerId
    have nothing : node.accepted peerId (.connection peerId own) = [] := by
      unfold accepted
      split <;> rfl
    rw [nothing] at flow
    exact (List.append_nil _).symm.trans flow
  rw [answersInside, answersInside, outbound, manager, events]

theorem Delivering.step (delivering : Delivering peerId actions node)
    (ran : runs (step host chainId) (start processor) actions = some node)
    (stepped : node.step host chainId action = some next) : Delivering peerId (actions ++ [action]) next := by
  have steps := step_steps stepped
  have numbered := runs_numbered ran
  have flow (before : (node.pointOf peerId).InSession) (after : (next.pointOf peerId).InSession) :
      answersWritten peerId (actions ++ [action]) ++ next.answersInside peerId =
        (answersWritten peerId actions ++ node.answersInside peerId) ++ node.accepted peerId action := by
    rw [answersWritten_concat, List.append_assoc, ← step_answersInside ran stepped before after, List.append_assoc]
  have session (after : (next.pointOf peerId).InSession) :
      answersWritten peerId (actions ++ [action]) ++ next.answersInside peerId <+:
          answersMade peerId (actions ++ [action]) ∧
        (next.manager.point ≠ .ended → answersMade peerId (actions ++ [action]) =
          answersWritten peerId (actions ++ [action]) ++ next.answersInside peerId) := by
    rw [answersMade_concat]
    by_cases before : (node.pointOf peerId).InSession
    · rw [flow before after]
      by_cases ended : node.manager.point = .ended
      · rw [accepted, if_pos ended, List.append_nil]
        exact ⟨(delivering.session before).trans (List.prefix_append _ _),
          fun alive => (alive (steps.manager_ended ended)).elim⟩
      · rw [accepted, if_neg ended, delivering.whole before ended]
        exact ⟨List.prefix_rfl, fun _ => rfl⟩
    · -- the session begins here, and there was nothing for the peer before
      obtain ⟨own, rfl, waits, established⟩ := steps.enters numbered before after
      obtain ⟨unmade, empty⟩ := answers_unannounced ran (register_unannounced ran waits)
      have unwritten : answersWritten peerId (actions ++ [.connection peerId own]) = [] := by
        have written := delivering.written
        rw [unmade, List.prefix_nil] at written
        rw [answersWritten_concat, written]
        cases writes : NodeAction.writes peerId (.connection peerId own) with
        | none => rfl
        | some message => exact (before (steps.writes_session numbered writes).1).elim
      rw [unmade, unwritten, answersInside_registered numbered stepped waits established, empty waits]
      exact ⟨List.prefix_rfl, fun _ => rfl⟩
  refine ⟨?_, fun after => (session after).1, fun after => (session after).2⟩
  cases writes : action.writes peerId with
  | none =>
    rw [answersWritten_concat, answersMade_concat, writes, Option.toList_none, List.append_nil]
    exact delivering.written.trans (List.prefix_append _ _)
  | some message =>
    have after := (steps.writes_session numbered writes).2
    exact (List.prefix_append _ _).trans (session after).1

theorem runs_delivering (ran : runs (step host chainId) (start processor) actions = some node) (peerId : PeerId) :
    Delivering peerId actions node := by
  refine runs_history (P := Delivering peerId) ⟨List.prefix_rfl, ?_, ?_⟩ ?_ ran
  · exact fun _ => List.prefix_rfl
  · exact fun _ _ => rfl
  · exact fun actions action here next first delivering stepped => delivering.step first stepped

end Delivering

end Node

/-- The answers to a peer are written in the order in which the adapter has made them, none of them twice. While
the manager runs and the connection is in its session none is lost: all that were not written are on their way. -/
theorem answers_in_order {host : Host} {chainId : U64} {processor : BlockProcessor} {actions : List NodeAction}
    {node : Node} (ran : runs (Node.step host chainId) (Node.start processor) actions = some node) (peerId : PeerId) :
    answersWritten peerId actions <+: answersMade peerId actions ∧
      ((node.pointOf peerId).InSession → node.manager.point ≠ .ended →
        answersMade peerId actions = answersWritten peerId actions ++ node.answersInside peerId) := by
  have delivering := Node.runs_delivering ran peerId
  exact ⟨delivering.written, delivering.whole⟩

/-- The answer to the first of two queries is written, and that to the second waits in the channel. -/
theorem answers_in_order_pending : ∃ node,
    runs (Node.step sampleHost 1) sampleNode (sampleJoin ++ (askHead ++ answerHead sampleHead) ++
      (askHead ++ readHeadFor sampleHead ++ [.adapter (.replied (.sendMessage samplePeer (headReply sampleHead)) true)])) =
        some node ∧
    node.answersInside samplePeer = [headReply sampleHead] ∧
    [headReply sampleHead] <+: answersMade samplePeer (sampleJoin ++ (askHead ++ answerHead sampleHead) ++
      (askHead ++ readHeadFor sampleHead ++ [.adapter (.replied (.sendMessage samplePeer (headReply sampleHead)) true)])) := by
  have possible : ((runs (Node.step sampleHost 1) sampleNode (sampleJoin ++ (askHead ++ answerHead sampleHead) ++
      (askHead ++ readHeadFor sampleHead ++
        [.adapter (.replied (.sendMessage samplePeer (headReply sampleHead)) true)]))).map
      (fun node => node.answersInside samplePeer)) = some [headReply sampleHead] := by
    decide +kernel
  obtain ⟨node, ran, inside⟩ := Option.map_eq_some_iff.mp possible
  exact ⟨node, ran, inside, (answers_in_order ran samplePeer).1⟩

end MiniEthNode
