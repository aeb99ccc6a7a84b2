import MiniEthNode.Networking.Registration

namespace MiniEthNode
open Rust

/-- What the manager passes on for a message. -/
def Message.request (peerId : PeerId) : Message → Option NetworkEvent
  | .newBlock block _ => some (.newBlock block peerId)
  | .getAccountState address => some (.getAccountState address peerId)
  | .getChainHead => some (.getChainHead peerId)
  | .ping | .pong | .status .. | .transactions .. | .getBlockHeaders .. | .newBlockHashes .. | .blockHeaders ..
  | .disconnect .. | .accountState .. | .chainHead .. => none

theorem Message.request_peerId {peerId : PeerId} {message : Message} {event : NetworkEvent}
    (asks : message.request peerId = some event) : event.peerId = peerId := by
  cases message <;> cases asks <;> rfl

theorem Message.request_status {peerId : PeerId} {message : Message} (status : message.isStatus = true) :
    message.request peerId = none := by
  cases message <;> first | rfl | cases status

def PeerEvent.request : PeerEvent → Option NetworkEvent
  | .message peerId received => received.request peerId
  | .connected .. | .disconnected .. | .sendMessage .. => none

def ManagerPoint.forwarding : ManagerPoint → Option NetworkEvent
  | .forward event => some event
  | .select | .send .. | .iterate .. | .broadcast .. | .ended => none

/-- A message that a connection has at hand for the manager. -/
def ConnectionPoint.forwarding : ConnectionPoint → Option Message
  | .forward message => some message
  | .select _ | .refuse _ | .readHead | .reply _ | .register | .write _ | .leave | .ended => none

/-- The loop of a connection after the handshake. -/
def ConnectionPoint.InSession : ConnectionPoint → Prop
  | .select .established | .forward _ | .write _ => True
  | .select .awaitingStatus | .refuse _ | .readHead | .reply _ | .register | .leave | .ended => False

section Connection

/-- The messages that a connection has decoded. -/
def receivedMessages (actions : List ConnectionAction) : List Message :=
  actions.filterMap fun
    | .received (some (.ok message)) => some message
    | _ => none

/-- The messages that it has passed to the manager. -/
def passedMessages (actions : List ConnectionAction) : List Message :=
  actions.filterMap fun
    | .emitted (.message _ message) true => some message
    | _ => none

theorem receivedMessages_append (first second : List ConnectionAction) :
    receivedMessages (first ++ second) = receivedMessages first ++ receivedMessages second :=
  List.filterMap_append

theorem passedMessages_append (first second : List ConnectionAction) :
    passedMessages (first ++ second) = passedMessages first ++ passedMessages second :=
  List.filterMap_append

/-- After the `Status` of the peer everything that was received is passed on, but for what is at hand. -/
def Greets (actions : List ConnectionAction) (rest : List Message) : Prop :=
  ∃ greeting : Message, greeting.isStatus = true ∧ receivedMessages actions = greeting :: (passedMessages actions ++ rest)

/-- What a connection has passed on when it waits at a point. -/
def Passing (actions : List ConnectionAction) : ConnectionPoint → Prop
  | .select .awaitingStatus => receivedMessages actions = [] ∧ passedMessages actions = []
  | .refuse _ => passedMessages actions = []
  | .readHead | .reply _ | .register => passedMessages actions = [] ∧ Greets actions []
  | .select .established | .write _ => Greets actions []
  | .forward message => Greets actions [message]
  | .leave | .ended => passedMessages actions = [] ∨ ∃ rest, Greets actions rest

variable {context : ConnectionContext} {actions : List ConnectionAction}

theorem Passing.leave {point : ConnectionPoint} (passing : Passing actions point) :
    passedMessages actions = [] ∨ ∃ rest, Greets actions rest := by
  match point, passing with
  | .select .awaitingStatus, passing => exact .inl passing.2
  | .refuse _, passing => exact .inl passing
  | .readHead, passing => exact .inl passing.1
  | .reply _, passing => exact .inl passing.1
  | .register, passing => exact .inl passing.1
  | .select .established, passing => exact .inr ⟨_, passing⟩
  | .write _, passing => exact .inr ⟨_, passing⟩
  | .forward _, passing => exact .inr ⟨_, passing⟩
  | .leave, passing => exact passing
  | .ended, passing => exact passing

/-- What was received and what was passed on stay as they are. -/
theorem Greets.silent {action : ConnectionAction} {rest : List Message} (greets : Greets actions rest)
    (received : receivedMessages [action] = []) (passed : passedMessages [action] = []) :
    Greets (actions ++ [action]) rest := by
  obtain ⟨greeting, status, same⟩ := greets
  refine ⟨greeting, status, ?_⟩
  rw [receivedMessages_append, passedMessages_append, received, passed, List.append_nil, List.append_nil, same]

theorem Greets.message (greets : Greets actions []) (message : Message) :
    Greets (actions ++ [.received (some (.ok message))]) [message] := by
  obtain ⟨greeting, status, same⟩ := greets
  refine ⟨greeting, status, ?_⟩
  rw [receivedMessages_append, passedMessages_append, same]
  simp [receivedMessages, passedMessages]

theorem Passing.message {state : HandshakeState} {message : Message} (passing : Passing actions (.select state)) :
    Passing (actions ++ [.received (some (.ok message))]) (ConnectionPoint.handleMessage context state message) := by
  have received : receivedMessages (actions ++ [.received (some (.ok message))]) =
      receivedMessages actions ++ [message] := receivedMessages_append _ _
  have passed : passedMessages (actions ++ [.received (some (.ok message))]) = passedMessages actions :=
    (passedMessages_append _ _).trans (List.append_nil _)
  unfold ConnectionPoint.handleMessage
  split
  · rename_i chainId headHash totalDifficulty
    split
    · exact passed.trans passing.2
    · refine ⟨passed.trans passing.2, .status chainId headHash totalDifficulty, rfl, ?_⟩
      rw [received, passed, passing.1, passing.2]
      rfl
  · exact .inl (passed.trans passing.2)
  · exact .inr ⟨_, Greets.message passing _⟩
  · exact Greets.message passing _

theorem Passing.step {point next : ConnectionPoint} {action : ConnectionAction} (passing : Passing actions point)
    (steps : ConnectionPoint.Steps context point action next) : Passing (actions ++ [action]) next := by
  -- an action that neither receives nor passes on a message
  have silent (quiet : receivedMessages [action] = [] ∧ passedMessages [action] = []) :
      passedMessages (actions ++ [action]) = passedMessages actions ∧
        ∀ {rest}, Greets actions rest → Greets (actions ++ [action]) rest := by
    rw [passedMessages_append, quiet.2, List.append_nil]
    exact ⟨rfl, fun greets => greets.silent quiet.1 quiet.2⟩
  have left (quiet : receivedMessages [action] = [] ∧ passedMessages [action] = []) :
      passedMessages (actions ++ [action]) = [] ∨ ∃ rest, Greets (actions ++ [action]) rest :=
    passing.leave.imp (fun none => (silent quiet).1.trans none) fun ⟨rest, greets⟩ => ⟨rest, (silent quiet).2 greets⟩
  cases steps with
  | message => exact passing.message
  | codecError | closed | unwound | refused | left => exact left ⟨rfl, rfl⟩
  | @outbound state rx =>
    have quiet : receivedMessages [ConnectionAction.took rx] = [] ∧ passedMessages [ConnectionAction.took rx] = [] :=
      ⟨rfl, rfl⟩
    unfold ConnectionPoint.handleOutbound
    split
    · exact (silent quiet).2 passing
    · exact left quiet
    · split
      · exact left quiet
      · refine ⟨?_, (silent quiet).1.trans passing.2⟩
        rw [receivedMessages_append, passing.1]
        rfl
  | readHead => exact ⟨(silent ⟨rfl, rfl⟩).1.trans passing.1, (silent ⟨rfl, rfl⟩).2 passing.2⟩
  | @replied snapshot isOk =>
    cases isOk with
    | true => exact ⟨(silent ⟨rfl, rfl⟩).1.trans passing.1, (silent ⟨rfl, rfl⟩).2 passing.2⟩
    | false => exact left ⟨rfl, rfl⟩
  | @registered isOk =>
    cases isOk with
    | true => exact (silent ⟨rfl, rfl⟩).2 passing.2
    | false => exact left ⟨rfl, rfl⟩
  | @forwarded message isOk =>
    cases isOk with
    | true =>
      obtain ⟨greeting, status, same⟩ := passing
      refine ⟨greeting, status, ?_⟩
      rw [receivedMessages_append, passedMessages_append, same]
      simp [receivedMessages, passedMessages]
    | false => exact left ⟨rfl, rfl⟩
  | @written message isOk =>
    cases isOk with
    | true => exact (silent ⟨rfl, rfl⟩).2 passing
    | false => exact left ⟨rfl, rfl⟩

theorem runs_passing {point : ConnectionPoint}
    (ran : runs (ConnectionPoint.step context) .start actions = some point) : Passing actions point := by
  have initial : Passing [] .start := ⟨rfl, rfl⟩
  exact runs_history (P := Passing) initial
    (fun _ _ _ _ _ passing stepped => passing.step (ConnectionPoint.step_eq_some.mp stepped)) ran

/-- After its `Status`, what is passed on is what was received, but for what is at hand. -/
theorem Greets.filterMap {β : Type} {f : Message → Option β} {rest : List Message} (greets : Greets actions rest)
    (silent : ∀ message : Message, message.isStatus = true → f message = none) :
    (receivedMessages actions).filterMap f = (passedMessages actions).filterMap f ++ rest.filterMap f := by
  obtain ⟨greeting, status, same⟩ := greets
  rw [same, List.filterMap_cons_none (silent _ status), List.filterMap_append]

theorem Passing.filterMap {β : Type} {f : Message → Option β} {point : ConnectionPoint} (passing : Passing actions point)
    (silent : ∀ message : Message, message.isStatus = true → f message = none) :
    (passedMessages actions).filterMap f <+: (receivedMessages actions).filterMap f := by
  rcases passing.leave with none | ⟨rest, greets⟩
  · rw [none]
    exact List.nil_prefix
  · rw [greets.filterMap silent]
    exact List.prefix_append _ _

/-- The requests among the messages that are passed on are those of the peer, from the first one on. -/
theorem Passing.requests {point : ConnectionPoint} (passing : Passing actions point) (peerId : PeerId) :
    (passedMessages actions).filterMap (·.request peerId) <+:
        (receivedMessages actions).filterMap (·.request peerId) ∧
      (point.InSession → (receivedMessages actions).filterMap (·.request peerId) =
        (passedMessages actions).filterMap (·.request peerId) ++
          point.forwarding.toList.filterMap (·.request peerId)) := by
  have silent (message : Message) (status : message.isStatus = true) : message.request peerId = none :=
    Message.request_status status
  refine ⟨passing.filterMap silent, fun inSession => ?_⟩
  match point, passing, inSession with
  | .select .established, greets, _ => exact Greets.filterMap greets silent
  | .forward message, greets, _ => exact Greets.filterMap greets silent
  | .write message, greets, _ => exact Greets.filterMap greets silent

end Connection

def ManagerAction.brings : ManagerAction → Option NetworkEvent
  | .received event => event.bind PeerEvent.request
  | .ticked | .shutdown | .iterated _ | .enqueued .. | .forwarded .. => none

def ManagerAction.passes : ManagerAction → Option NetworkEvent
  | .forwarded event _ => some event
  | .received _ | .ticked | .shutdown | .iterated _ | .enqueued .. => none

namespace Manager
variable {manager next : Manager} {action : ManagerAction}

theorem handleEvent_forwarding (select : manager.point = .select) (event : PeerEvent) :
    (manager.handleEvent event).point.forwarding = event.request := by
  have sends (peerId : PeerId) (message : Message) : (manager.sendTo peerId message).point.forwarding = none := by
    unfold sendTo
    split
    · rfl
    · rw [select]
      rfl
  cases event with
  | connected peerId sender | disconnected peerId =>
    change manager.point.forwarding = none
    rw [select]
    rfl
  | sendMessage peerId message => exact sends peerId message
  | message peerId message =>
    cases message with
    | ping => exact sends peerId .pong
    | transactions | newBlock | getAccountState | getChainHead => rfl
    | status | pong | getBlockHeaders | newBlockHashes | blockHeaders | disconnect | accountState | chainHead =>
      change manager.point.forwarding = none
      rw [select]
      rfl

theorem advance_forwarding (peerMap : HashMap PeerId PeerSender) (broadcast : Broadcast)
    (rest : List (PeerId × PeerSender)) (stalePeers : List PeerId) :
    (advance peerMap broadcast rest stalePeers).point.forwarding = none := by
  unfold advance
  split <;> rfl

/-- What the manager takes in for the processor it passes on, before it takes in anything else. -/
theorem Steps.forwarding (steps : manager.Steps action next) :
    manager.point.forwarding.toList ++ action.brings.toList =
      action.passes.toList ++ next.point.forwarding.toList := by
  cases steps with
  | received select =>
    rw [handleEvent_forwarding select, select]
    rfl
  | exhausted waits | ticked waits | shutdown waits | sent waits | forwarded waits =>
    rw [waits]
    rfl
  | iterated waits | broadcast waits =>
    rw [waits, advance_forwarding]
    rfl

end Manager

/-- A request goes into the channel to the manager. -/
def NodeAction.asks : NodeAction → Option NetworkEvent
  | .connection peerId (.emitted (.message _ message) true) => message.request peerId
  | _ => none

/-- The adapter takes a request up. -/
def NodeAction.takes : NodeAction → Option NetworkEvent
  | .adapter (.received event) => event
  | _ => none

/-- The requests of a peer that the adapter has taken up. -/
def requestsTaken (peerId : PeerId) (actions : List NodeAction) : List NetworkEvent :=
  (actions.filterMap NodeAction.takes).filter fun event => event.peerId = peerId

/-- The requests that a peer has sent. -/
def requestsReceived (peerId : PeerId) (actions : List NodeAction) : List NetworkEvent :=
  (receivedMessages (actionsOf peerId actions)).filterMap (·.request peerId)

namespace Node

/-- The requests that were put into the channels and not taken out, the oldest first. -/
def requestsQueued (node : Node) : List NetworkEvent :=
  node.network.items ++ (node.manager.point.forwarding.toList ++ node.events.items.filterMap PeerEvent.request)

/-- The requests on their way from the connections to the adapter, the oldest first. The end of the manager drops
what is in its channel. -/
def requestsInside (node : Node) : List NetworkEvent :=
  node.network.items ++
    if node.manager.point = .ended then []
    else node.manager.point.forwarding.toList ++ node.events.items.filterMap PeerEvent.request

theorem requestsInside_of_running {node : Node} (running : node.manager.point ≠ .ended) :
    node.requestsInside = node.requestsQueued := by
  rw [requestsInside, if_neg running, requestsQueued]

theorem prefix_requestsInside (node : Node) : node.requestsInside <+: node.requestsQueued := by
  unfold requestsInside requestsQueued
  split
  · rw [List.append_nil]
    exact List.prefix_append _ _
  · exact List.prefix_rfl

/-- The adapter ends after the manager. -/
def Outlives (node : Node) : Prop := node.adapter = .ended → node.manager.point = .ended

section Steps
variable {host : Host} {chainId : U64} {node next : Node} {action : NodeAction}

theorem Steps.manager_ended (steps : node.Steps chainId action next) (ended : node.manager.point = .ended) :
    next.manager.point = .ended := by
  rcases steps.manager with same | ⟨own, _, moved, _⟩
  · rw [same]
    exact ended
  · generalize next.manager = manager at moved
    cases moved with
    | received waits | exhausted waits | ticked waits | shutdown waits | sent waits | forwarded waits | iterated waits
    | broadcast waits => cases ended.symm.trans waits

theorem stepAdapter_closed (stepped : node.stepAdapter (.received none) = some next) :
    node.manager.point = .ended := by
  obtain ⟨adapter, _, stepped⟩ := Option.bind_eq_some_iff.mp stepped
  obtain ⟨⟨_, ended⟩, _⟩ := Option.ite_none_right_eq_some.mp stepped
  exact ended

/-- Only the adapter itself moves the adapter, and takes from its channel. -/
theorem Steps.apart_adapter (steps : node.Steps chainId action next) (other : ∀ own, action ≠ .adapter own) :
    next.adapter = node.adapter := by
  cases steps with
  | replied => exact (other _ rfl).elim
  | aside _ _ _ _ _ _ apart => exact (apart other).1
  | accepted | outside | took | emitted | unemitted | received | ticked | iterated | shutdown | enqueued | unqueued
  | forwarded | unforwarded => rfl

theorem Outlives.step (outlives : node.Outlives) (stepped : node.step host chainId action = some next) :
    next.Outlives := by
  intro ended
  have steps := step_steps stepped
  have before : node.adapter = .ended ∨ node.manager.point = .ended := by
    by_cases own : ∃ part, action = .adapter part
    · obtain ⟨part, rfl⟩ := own
      have moved := (stepAdapter_adapterSteps stepped).moved
      rw [ended] at moved
      have point := AdapterPoint.step_steps moved
      generalize node.adapter = here at point
      cases point with
      | closed => exact .inr (stepAdapter_closed stepped)
    · exact .inl ((steps.apart_adapter (not_exists.mp own)).symm.trans ended)
  exact steps.manager_ended (before.elim outlives id)

/-- A step of the node moves a request by at most one place. -/
theorem step_requests (outlives : node.Outlives) (stepped : node.step host chainId action = some next) :
    node.requestsQueued ++ action.asks.toList = action.takes.toList ++ next.requestsQueued := by
  by_cases own : ∃ part, action = .adapter part
  · obtain ⟨part, rfl⟩ := own
    have silent : (NodeAction.adapter part).asks = none := rfl
    rw [silent, Option.toList_none, List.append_nil]
    cases stepAdapter_adapterSteps stepped with
    | received _ taken => simp [requestsQueued, NodeAction.takes, taken]
    | replied moved _ sent =>
      obtain ⟨_, _, _, rfl, _⟩ := AdapterPoint.step_replied moved
      simp [requestsQueued, NodeAction.takes, sent, PeerEvent.request]
    | closed | submitted | unsubmitted | answered | dropped | readHead | unreplied => rfl
  · have other := not_exists.mp own
    have silent : action.takes = none := by
      cases action <;> first | rfl | exact (other _ rfl).elim
    rw [silent, Option.toList_none, List.nil_append]
    cases step_steps stepped with
    | @emitted peerId event connection point events found moved _ sent =>
      have asked : NodeAction.asks (.connection peerId (.emitted event true)) = event.request := by
        generalize connection.point = here at moved
        cases moved <;> rfl
      rw [asked]
      simp only [requestsQueued, setConnection, sent, List.filterMap_append, List.append_assoc]
      cases told : event.request <;> simp [told]
    | @received event manager rest moved taken =>
      have through : _ ++ event.request.toList = manager.point.forwarding.toList := moved.forwarding
      simp only [requestsQueued, taken, ← through]
      cases told : event.request <;> simp [told, NodeAction.asks]
    | ticked moved | iterated moved | shutdown moved | enqueued moved | unqueued moved =>
      have same : node.manager.point.forwarding.toList ++ [] = _ := moved.forwarding
      simp [requestsQueued, setConnection, NodeAction.asks, (List.append_nil _).symm.trans same, ManagerAction.passes]
    | @forwarded event manager network moved _ sent =>
      have through : node.manager.point.forwarding.toList ++ [] = event :: manager.point.forwarding.toList :=
        moved.forwarding
      simp [requestsQueued, NodeAction.asks, sent, (List.append_nil _).symm.trans through]
    | unforwarded moved gone =>
      cases moved with
      | forwarded waits => cases (outlives gone).symm.trans waits
    | @outside peerId part connection point found moved noTook noEvent =>
      have silent : NodeAction.asks (.connection peerId part) = none := by
        cases part with
        | emitted event isOk => exact (noEvent event isOk rfl).elim
        | received | unwound | took | readHead | wrote => rfl
      rw [silent]
      exact List.append_nil _
    | accepted | took => exact List.append_nil _
    | @unemitted peerId event =>
      cases event <;> exact List.append_nil _
    | replied => exact (other _ rfl).elim
    | @aside action next noConnection _ _ manager events _ apart =>
      have silent : action.asks = none := by
        cases action with
        | connection peerId part => exact (noConnection peerId part rfl).elim
        | accepted | manager | adapter | processed | signalled | unlistened | finished => rfl
      rw [silent, requestsQueued, requestsQueued, manager, events, (apart other).2]
      exact List.append_nil _

end Steps

/-- All the requests that went into the channel to the manager were taken up or are still in the channels. -/
theorem runs_requests {host : Host} {chainId : U64} {processor : BlockProcessor} {actions : List NodeAction}
    {node : Node} (ran : runs (step host chainId) (start processor) actions = some node) :
    actions.filterMap NodeAction.asks = actions.filterMap NodeAction.takes ++ node.requestsQueued := by
  change (start processor).requestsQueued ++ _ = _
  refine runs_conserved (P := Outlives) ?_ ?_ ran ?_
  · exact fun here action next outlives stepped => outlives.step stepped
  · exact fun here action next outlives stepped => step_requests outlives stepped
  · intro ended
    cases ended

end Node

/-- What goes into the channel for a peer is what its connection has passed on. -/
theorem asks_of_peer (peerId : PeerId) (actions : List NodeAction) :
    ((actions.filterMap NodeAction.asks).filter fun event => event.peerId = peerId) =
      (passedMessages (actionsOf peerId actions)).filterMap (·.request peerId) := by
  unfold passedMessages actionsOf
  rw [List.filterMap_filterMap, List.filterMap_filterMap, ← List.filterMap_eq_filter, List.filterMap_filterMap]
  refine List.filterMap_congr fun action _ => ?_
  cases action with
  | connection other own =>
    match own with
    | .emitted (.message _ message) true =>
      simp only [NodeAction.asks]
      cases asks : message.request other with
      | none =>
        by_cases here : other = peerId
        · subst here
          simp [asks]
        · simp [here]
      | some event =>
        have sender := Message.request_peerId asks
        by_cases here : other = peerId
        · subst here
          simp [asks, sender, Option.guard]
        · simp [here, sender, Option.guard]
    | .emitted (.message _ message) false | .emitted (.connected ..) _ | .emitted (.disconnected _) _
    | .emitted (.sendMessage ..) _ | .received _ | .unwound | .took _ | .readHead _ | .wrote .. =>
      by_cases here : other = peerId <;> simp [here, NodeAction.asks]
  | accepted | manager | adapter | processed | signalled | unlistened | finished => rfl

section Order
variable {host : Host} {chainId : U64} {processor : BlockProcessor} {actions : List NodeAction} {node : Node}

/-- What the connection of a peer has passed on was taken up or is still in the channels. -/
theorem passed_requests (ran : runs (Node.step host chainId) (Node.start processor) actions = some node)
    (peerId : PeerId) :
    (passedMessages (actionsOf peerId actions)).filterMap (·.request peerId) =
      requestsTaken peerId actions ++ node.requestsQueued.filter fun event => event.peerId = peerId := by
  have flow := congrArg (List.filter fun event => event.peerId = peerId) (Node.runs_requests ran)
  rwa [asks_of_peer, List.filter_append] at flow

theorem prefix_requestsQueued (ran : runs (Node.step host chainId) (Node.start processor) actions = some node)
    (peerId : PeerId) :
    (requestsTaken peerId actions ++ node.requestsQueued.filter fun event => event.peerId = peerId) <+:
      requestsReceived peerId actions := by
  rw [← passed_requests ran]
  exact ((runs_passing (Node.runs_connection ran peerId)).requests peerId).1

theorem prefix_requestsTaken (ran : runs (Node.step host chainId) (Node.start processor) actions = some node)
    (peerId : PeerId) : requestsTaken peerId actions <+: requestsReceived peerId actions :=
  (List.prefix_append _ _).trans (prefix_requestsQueued ran peerId)

/-- The requests of a peer are taken up in the order in which the peer has sent them, none of them twice, and those
on their way come next. While the manager runs and the connection is in its session none is lost: all that were not
taken up are on their way. -/
theorem requests_in_order (ran : runs (Node.step host chainId) (Node.start processor) actions = some node)
    (peerId : PeerId) :
    (requestsTaken peerId actions ++ node.requestsInside.filter fun event => event.peerId = peerId) <+:
        requestsReceived peerId actions ∧
      ((node.pointOf peerId).InSession → node.manager.point ≠ .ended →
        requestsReceived peerId actions = requestsTaken peerId actions ++
          ((node.requestsInside.filter fun event => event.peerId = peerId) ++
            (node.pointOf peerId).forwarding.toList.filterMap (·.request peerId))) := by
  constructor
  · have ordered := (node.prefix_requestsInside).filter fun event => event.peerId = peerId
    exact ((List.prefix_append_right_inj _).mpr ordered).trans (prefix_requestsQueued ran peerId)
  · intro here running
    have received := ((runs_passing (Node.runs_connection ran peerId)).requests peerId).2 here
    rw [requestsReceived, received, passed_requests ran, Node.requestsInside_of_running running, List.append_assoc]

end Order

/-- The request has left the connection, and the manager has it at hand. -/
theorem requests_in_order_pending : ∃ node,
    runs (Node.step sampleHost 1) sampleNode (sampleJoin ++ sampleRequest) = some node ∧
    node.requestsInside = [.getChainHead samplePeer] ∧
    requestsReceived samplePeer (sampleJoin ++ sampleRequest) =
      requestsTaken samplePeer (sampleJoin ++ sampleRequest) ++ ([.getChainHead samplePeer] ++ []) := by
  have possible : ((runs (Node.step sampleHost 1) sampleNode (sampleJoin ++ sampleRequest)).map fun node =>
      (node.requestsInside, node.pointOf samplePeer, node.manager.point)) =
        some ([.getChainHead samplePeer], .select .established, .forward (.getChainHead samplePeer)) := by
    decide +kernel
  obtain ⟨node, ran, reached⟩ := Option.map_eq_some_iff.mp possible
  obtain ⟨inside, point, manager⟩ : node.requestsInside = [.getChainHead samplePeer] ∧
      node.pointOf samplePeer = .select .established ∧ node.manager.point = .forward (.getChainHead samplePeer) := by
    simpa only [Prod.mk.injEq] using reached
  have ordered := (requests_in_order ran samplePeer).2 (by rw [point]; trivial) (by simp [manager])
  rw [inside, point] at ordered
  exact ⟨node, ran, inside, ordered⟩

end MiniEthNode
