import MiniEthNode.Networking.Connection
import MiniEthNode.Processor.Run

namespace MiniEthNode
open Rust

/-- The one open `response_tx` belongs to the adapter. -/
inductive ProcessorMessage where
  | newBlock (block : Block) (peerId : PeerId)
  | getAccountState (address : Address)
  | shutdown
  deriving DecidableEq

/-- Where the task between the manager and the processor waits. -/
inductive AdapterPoint where
  | receive
  | submit (block : Block) (peerId : PeerId)
  | query (address : Address) (peerId : PeerId)
  | await (address : Address) (peerId : PeerId)
  | readHead (peerId : PeerId)
  | reply (peerId : PeerId) (message : Message)
  | ended
  deriving DecidableEq

inductive AdapterAction where
  | received (event : Option NetworkEvent)
  | submitted (message : ProcessorMessage) (isOk : Bool)
  | answered (response : Option (Except ProcessorError Account))
  | readHead (head : ChainHead)
  | replied (event : PeerEvent) (isOk : Bool)

def AdapterPoint.step (point : AdapterPoint) (action : AdapterAction) : Option AdapterPoint :=
  match point, action with
  | .receive, .received none => some .ended
  | .receive, .received (some (.newBlock block peerId)) => some (.submit block peerId)
  | .receive, .received (some (.getAccountState address peerId)) => some (.query address peerId)
  | .receive, .received (some (.getChainHead peerId)) => some (.readHead peerId)
  | .submit block peerId, .submitted message _ => if message = .newBlock block peerId then some .receive else none
  | .query address peerId, .submitted message isOk =>
    if message = .getAccountState address then some (if isOk then .await address peerId else .receive) else none
  | .await address peerId, .answered (some (.ok account)) =>
    some (.reply peerId (.accountState address account.nonce account.balance))
  | .await .., .answered (some (.error _)) => some .receive
  | .await .., .answered none => some .receive
  | .readHead peerId, .readHead head => some (.reply peerId (.chainHead head.number head.hash head.totalDifficulty))
  | .reply peerId message, .replied event _ => if event = .sendMessage peerId message then some .receive else none
  | _, _ => none

/-- The steps of the adapter. -/
inductive AdapterPoint.Steps : AdapterPoint → AdapterAction → AdapterPoint → Prop
  | closed : Steps .receive (.received none) .ended
  | newBlock {block peerId} : Steps .receive (.received (some (.newBlock block peerId))) (.submit block peerId)
  | getAccountState {address peerId} :
      Steps .receive (.received (some (.getAccountState address peerId))) (.query address peerId)
  | getChainHead {peerId} : Steps .receive (.received (some (.getChainHead peerId))) (.readHead peerId)
  | submitted {block peerId isOk} : Steps (.submit block peerId) (.submitted (.newBlock block peerId) isOk) .receive
  | queried {address peerId} :
      Steps (.query address peerId) (.submitted (.getAccountState address) true) (.await address peerId)
  | unqueried {address peerId} : Steps (.query address peerId) (.submitted (.getAccountState address) false) .receive
  | answered {address peerId account} : Steps (.await address peerId) (.answered (some (.ok account)))
      (.reply peerId (.accountState address account.nonce account.balance))
  | refused {address peerId error} : Steps (.await address peerId) (.answered (some (.error error))) .receive
  | dropped {address peerId} : Steps (.await address peerId) (.answered none) .receive
  | readHead {peerId head} : Steps (.readHead peerId) (.readHead head)
      (.reply peerId (.chainHead head.number head.hash head.totalDifficulty))
  | replied {peerId message isOk} : Steps (.reply peerId message) (.replied (.sendMessage peerId message) isOk) .receive

theorem AdapterPoint.step_steps {point next : AdapterPoint} {action : AdapterAction}
    (stepped : point.step action = some next) : point.Steps action next := by
  unfold AdapterPoint.step at stepped
  split at stepped
  case h_6 _ address peerId message isOk =>
    obtain ⟨rfl, same⟩ := Option.ite_none_right_eq_some.mp stepped
    cases isOk <;> cases same <;> constructor
  all_goals
    (try split at stepped) <;> cases stepped
    all_goals
      subst_vars
      constructor

theorem AdapterPoint.step_replied {point next : AdapterPoint} {event : PeerEvent} {isOk : Bool}
    (stepped : point.step (.replied event isOk) = some next) :
    ∃ peerId message, point = .reply peerId message ∧ event = .sendMessage peerId message ∧ next = .receive := by
  cases AdapterPoint.step_steps stepped with
  | replied => exact ⟨_, _, rfl, rfl, rfl⟩

structure Connection where
  point : ConnectionPoint
  outbound : Channel Message 32
  deriving DecidableEq

/-- The tasks of a node and the bounded channels between them. A step is one task going from one `.await` to the next. -/
structure Node where
  peerCounter : U64
  listening : Bool
  /-- The shutdown signal has been sent. -/
  stopping : Bool
  connections : HashMap PeerId Connection
  manager : Manager
  events : Channel PeerEvent 256
  network : Channel NetworkEvent 256
  adapter : AdapterPoint
  requests : Channel ProcessorMessage 256
  response : Option (Except ProcessorError Account)
  processor : BlockProcessor
  /-- The task of the processor has neither ended nor panicked. -/
  processing : Bool
  /-- The main task has told the processor to stop, or found it gone. -/
  finished : Bool

inductive NodeAction where
  | accepted
  | connection (peerId : PeerId) (action : ConnectionAction)
  | manager (action : ManagerAction)
  | adapter (action : AdapterAction)
  | processed
  | signalled
  | unlistened
  | finished (isOk : Bool)

namespace Node

def start (processor : BlockProcessor) : Node where
  peerCounter := 0
  listening := true
  stopping := false
  connections := ∅
  manager := .new
  events := .empty
  network := .empty
  adapter := .receive
  requests := .empty
  response := none
  processor := processor
  processing := true
  finished := false

def setConnection (node : Node) (peerId : PeerId) (connection : Connection) : Node :=
  { node with connections := node.connections.insert peerId connection }

/-- A read of the shared head, which a panic of the processor leaves at some value. -/
def readHead (node : Node) (head : ChainHead) : Option Unit :=
  if node.processing = true ∧ head ≠ node.processor.sharedHead then none else some ()

/-- A send to the manager, which waits while the channel is full and fails when the manager is gone. -/
def sendEvent (node : Node) (event : PeerEvent) (isOk : Bool) : Option Node :=
  if node.manager.point = .ended then
    if isOk then none else some node
  else if isOk then (node.events.send event).map fun events => { node with events := events }
  else none

/-- One accepted stream. The number of streams does not reach the end of the counter. -/
def accept (node : Node) : Option Node :=
  if node.listening then
    (checkedAdd node.peerCounter 1).map fun counter =>
      setConnection { node with peerCounter := counter } ⟨counter⟩ ⟨.start, .empty⟩
  else none

def context (chainId : U64) (peerId : PeerId) : ConnectionContext := ⟨peerId, chainId, ⟨peerId⟩⟩

def stepConnection (chainId : U64) (node : Node) (peerId : PeerId) (action : ConnectionAction) : Option Node := do
  let connection ← node.connections.lookup peerId
  let point ← connection.point.step (context chainId peerId) action
  let moved := node.setConnection peerId { connection with point := point }
  match action with
  | .received _ | .unwound | .wrote .. => some moved
  -- the task itself holds a sender of its channel
  | .took none => none
  | .took (some message) => do
    let (first, rest) ← connection.outbound.recv
    if first = message then some (node.setConnection peerId ⟨point, rest⟩) else none
  | .readHead snapshot => do
    node.readHead snapshot
    some moved
  | .emitted event isOk => moved.sendEvent event isOk

def stepManager (node : Node) (action : ManagerAction) : Option Node := do
  let manager ← node.manager.step action
  let moved := { node with manager := manager }
  match action with
  -- the adapter and the main task hold senders of the channel
  | .received none => none
  | .received (some event) => do
    let (first, rest) ← node.events.recv
    if first = event then some { moved with events := rest } else none
  | .ticked | .iterated _ => some moved
  | .shutdown => if node.stopping then some moved else none
  | .enqueued sender message isOk => do
    let connection ← node.connections.lookup sender.channel
    if connection.point = .ended then
      if isOk then none else some moved
    else if isOk then
      (connection.outbound.send message).map fun outbound =>
        moved.setConnection sender.channel { connection with outbound := outbound }
    else none
  | .forwarded event isOk =>
    if node.adapter = .ended then
      if isOk then none else some moved
    else if isOk then (node.network.send event).map fun network => { moved with network := network }
    else none

def stepAdapter (node : Node) (action : AdapterAction) : Option Node := do
  let adapter ← node.adapter.step action
  let moved := { node with adapter := adapter }
  match action with
  -- the manager holds the only sender of the channel
  | .received none => if node.network.items = [] ∧ node.manager.point = .ended then some moved else none
  | .received (some event) => do
    let (first, rest) ← node.network.recv
    if first = event then some { moved with network := rest } else none
  | .submitted message isOk =>
    if node.processing then
      if isOk then (node.requests.send message).map fun requests => { moved with requests := requests } else none
    else if isOk then none else some moved
  | .answered (some response) =>
    if node.response = some response then some { moved with response := none } else none
  | .answered none => if node.response = none ∧ node.processing = false then some moved else none
  | .readHead head => do
    node.readHead head
    some moved
  | .replied event isOk => moved.sendEvent event isOk

/-- One message of `run`, with all the blocks that it drains. -/
def stepProcessor (host : Host) (node : Node) : Option Node :=
  if node.processing then do
    let (message, requests) ← node.requests.recv
    let moved := { node with requests := requests }
    match message with
    | .newBlock block peerId =>
      match deliver host node.processor ⟨block, peerId⟩ with
      | some (_, processor) => some { moved with processor := processor }
      | none => some { moved with processing := false }
    | .getAccountState address =>
      match node.processor.pipeline.provider.getAccount address with
      | .ok account => some { moved with response := some (.ok account) }
      | .err error => some { moved with response := some (.error (.execution error)) }
      | .panic => some { moved with processing := false }
    | .shutdown =>
      match BlockProcessor.tryDrain host node.processor with
      | .ok (_, processor) | .err (_, processor) =>
        some { moved with processor := { processor with pendingMap := ∅ }, processing := false }
      | .panic => some { moved with processing := false }
  else none

/-- The listener leaves its loop. -/
def unlisten (node : Node) : Option Node :=
  if node.stopping = true ∧ node.listening = true then some { node with listening := false } else none

/-- The end of the main task, which has got the signal: the listener has joined every connection, and the manager is
gone. The send fails if the processor is gone too. -/
def finish (node : Node) (isOk : Bool) : Option Node :=
  if node.finished = false ∧ node.stopping = true ∧ node.listening = false ∧ node.manager.point = .ended ∧
      node.connections.all (fun _ connection => connection.point = .ended) = true then
    let moved := { node with finished := true }
    if node.processing then
      if isOk then (node.requests.send .shutdown).map fun requests => { moved with requests := requests } else none
    else if isOk then none else some moved
  else none

def step (host : Host) (chainId : U64) (node : Node) : NodeAction → Option Node
  | .accepted => node.accept
  | .connection peerId action => node.stepConnection chainId peerId action
  | .manager action => node.stepManager action
  | .adapter action => node.stepAdapter action
  | .processed => node.stepProcessor host
  | .signalled => if node.stopping then none else some { node with stopping := true }
  | .unlistened => node.unlisten
  | .finished isOk => node.finish isOk

/-- What the end of the main task waits for. -/
structure Closed (node : Node) : Prop where
  stopping : node.stopping = true
  listening : node.listening = false
  manager : node.manager.point = .ended
  connections : ∀ peerId connection, node.connections.lookup peerId = some connection → connection.point = .ended

theorem finish_closed {node next : Node} {isOk : Bool} (stepped : node.finish isOk = some next) :
    node.finished = false ∧ node.Closed := by
  obtain ⟨⟨unfinished, stopping, listening, manager, connections⟩, _⟩ := Option.ite_none_right_eq_some.mp stepped
  exact ⟨unfinished, stopping, listening, manager,
    fun peerId connection found => of_decide_eq_true (HashMap.all_lookup connections found)⟩

/-- The processor is told to stop, if it is there. -/
theorem finish_sends {node next : Node} {isOk : Bool} (stepped : node.finish isOk = some next) :
    isOk = node.processing ∧ ∃ requests : Channel ProcessorMessage 256,
      requests.items = node.requests.items ++ (if isOk then [.shutdown] else []) ∧
      next = { node with finished := true, requests := requests } := by
  obtain ⟨_, stepped⟩ := Option.ite_none_right_eq_some.mp stepped
  cases processing : node.processing <;> cases isOk <;> simp only [processing, Bool.false_eq_true, ↓reduceIte] at stepped
  · cases stepped
    exact ⟨rfl, node.requests, (List.append_nil _).symm, rfl⟩
  · cases stepped
  · cases stepped
  · obtain ⟨requests, sent, rfl⟩ := Option.map_eq_some_iff.mp stepped
    exact ⟨rfl, requests, Channel.send_eq_some.mp sent, rfl⟩

theorem sendEvent_eq_some {node next : Node} {event : PeerEvent} {isOk : Bool} :
    node.sendEvent event isOk = some next ↔
      (isOk = true ∧ node.manager.point ≠ .ended ∧ ∃ events : Channel PeerEvent 256,
        events.items = node.events.items ++ [event] ∧ next = { node with events := events }) ∨
      (isOk = false ∧ node.manager.point = .ended ∧ next = node) := by
  unfold sendEvent
  cases isOk with
  | true =>
    by_cases gone : node.manager.point = .ended
    · simp [gone]
    · rw [if_neg gone, if_pos rfl, Option.map_eq_some_iff]
      simp [gone, Channel.send_eq_some, eq_comm (b := next)]
  | false => by_cases gone : node.manager.point = .ended <;> simp [gone, eq_comm]

/-- The steps of a node, as the connections, the manager and the channel between them see them. -/
inductive Steps (chainId : U64) (node : Node) : NodeAction → Node → Prop
  | accepted {counter} : node.listening = true → checkedAdd node.peerCounter 1 = some counter →
      Steps chainId node .accepted (setConnection { node with peerCounter := counter } ⟨counter⟩ ⟨.start, .empty⟩)
  /-- The socket and the shared head are no channels of the node. -/
  | outside {peerId action connection point} : node.connections.lookup peerId = some connection →
      ConnectionPoint.Steps (context chainId peerId) connection.point action point →
      (∀ rx, action ≠ .took rx) → (∀ event isOk, action ≠ .emitted event isOk) →
      Steps chainId node (.connection peerId action) (node.setConnection peerId { connection with point := point })
  | took {peerId message connection point} {rest : Channel Message 32} :
      node.connections.lookup peerId = some connection →
      ConnectionPoint.Steps (context chainId peerId) connection.point (.took (some message)) point →
      connection.outbound.items = message :: rest.items →
      Steps chainId node (.connection peerId (.took (some message))) (node.setConnection peerId ⟨point, rest⟩)
  | emitted {peerId event connection point} {events : Channel PeerEvent 256} :
      node.connections.lookup peerId = some connection →
      ConnectionPoint.Steps (context chainId peerId) connection.point (.emitted event true) point →
      node.manager.point ≠ .ended → events.items = node.events.items ++ [event] →
      Steps chainId node (.connection peerId (.emitted event true))
        { node.setConnection peerId { connection with point := point } with events := events }
  | unemitted {peerId event connection point} : node.connections.lookup peerId = some connection →
      ConnectionPoint.Steps (context chainId peerId) connection.point (.emitted event false) point →
      node.manager.point = .ended →
      Steps chainId node (.connection peerId (.emitted event false))
        (node.setConnection peerId { connection with point := point })
  | received {event manager} {rest : Channel PeerEvent 256} : node.manager.Steps (.received (some event)) manager →
      node.events.items = event :: rest.items →
      Steps chainId node (.manager (.received (some event))) { node with manager := manager, events := rest }
  | ticked {manager} : node.manager.Steps .ticked manager →
      Steps chainId node (.manager .ticked) { node with manager := manager }
  | iterated {order manager} : node.manager.Steps (.iterated order) manager →
      Steps chainId node (.manager (.iterated order)) { node with manager := manager }
  | shutdown {manager} : node.manager.Steps .shutdown manager → node.stopping = true →
      Steps chainId node (.manager .shutdown) { node with manager := manager }
  | enqueued {sender message manager connection} {outbound : Channel Message 32} :
      node.manager.Steps (.enqueued sender message true) manager →
      node.connections.lookup sender.channel = some connection → connection.point ≠ .ended →
      outbound.items = connection.outbound.items ++ [message] →
      Steps chainId node (.manager (.enqueued sender message true))
        (setConnection { node with manager := manager } sender.channel { connection with outbound := outbound })
  | unqueued {sender message manager connection} : node.manager.Steps (.enqueued sender message false) manager →
      node.connections.lookup sender.channel = some connection → connection.point = .ended →
      Steps chainId node (.manager (.enqueued sender message false)) { node with manager := manager }
  | forwarded {event manager} {network : Channel NetworkEvent 256} :
      node.manager.Steps (.forwarded event true) manager → node.adapter ≠ .ended →
      network.items = node.network.items ++ [event] →
      Steps chainId node (.manager (.forwarded event true)) { node with manager := manager, network := network }
  | unforwarded {event manager} : node.manager.Steps (.forwarded event false) manager → node.adapter = .ended →
      Steps chainId node (.manager (.forwarded event false)) { node with manager := manager }
  | replied {event adapter} {events : Channel PeerEvent 256} :
      node.adapter.step (.replied event true) = some adapter → node.manager.point ≠ .ended →
      events.items = node.events.items ++ [event] →
      Steps chainId node (.adapter (.replied event true)) { node with adapter := adapter, events := events }
  /-- The other steps leave them as they are. -/
  | aside {action next} : (∀ peerId own, action ≠ .connection peerId own) → (∀ own, action ≠ .manager own) →
      next.connections = node.connections → next.manager = node.manager → next.events = node.events →
      next.peerCounter = node.peerCounter →
      ((∀ own, action ≠ .adapter own) → next.adapter = node.adapter ∧ next.network = node.network) →
      (action ≠ .processed → next.processor = node.processor ∧ next.processing = node.processing) →
      (∀ own, action = .adapter own → node.adapter.step own = some next.adapter) →
      Steps chainId node action next

section Inversion
variable {host : Host} {chainId : U64} {node next : Node}

theorem stepConnection_steps {peerId : PeerId} {action : ConnectionAction}
    (stepped : node.stepConnection chainId peerId action = some next) :
    node.Steps chainId (.connection peerId action) next := by
  obtain ⟨connection, found, stepped⟩ := Option.bind_eq_some_iff.mp stepped
  obtain ⟨point, moved, stepped⟩ := Option.bind_eq_some_iff.mp stepped
  have steps := ConnectionPoint.step_eq_some.mp moved
  cases action with
  | received msg =>
    cases stepped
    exact .outside found steps (by simp) (by simp)
  | unwound =>
    cases stepped
    exact .outside found steps (by simp) (by simp)
  | wrote frame isOk =>
    cases stepped
    exact .outside found steps (by simp) (by simp)
  | took rx =>
    cases rx with
    | none => cases stepped
    | some message =>
      obtain ⟨⟨first, rest⟩, taken, left⟩ := Option.bind_eq_some_iff.mp stepped
      obtain ⟨rfl, same⟩ := Option.ite_none_right_eq_some.mp left
      cases same
      exact .took found steps (Channel.recv_eq_some.mp taken)
  | readHead snapshot =>
    obtain ⟨_, _, stepped⟩ := Option.bind_eq_some_iff.mp stepped
    cases stepped
    exact .outside found steps (by simp) (by simp)
  | emitted event isOk =>
    rcases sendEvent_eq_some.mp stepped with ⟨rfl, alive, events, same, rfl⟩ | ⟨rfl, gone, rfl⟩
    · exact .emitted found steps alive same
    · exact .unemitted found steps gone

theorem stepManager_steps {action : ManagerAction} (stepped : node.stepManager action = some next) :
    node.Steps chainId (.manager action) next := by
  obtain ⟨manager, moved, stepped⟩ := Option.bind_eq_some_iff.mp stepped
  have steps := Manager.step_eq_some.mp moved
  cases action with
  | received event =>
    cases event with
    | none => cases stepped
    | some event =>
      obtain ⟨⟨first, rest⟩, taken, left⟩ := Option.bind_eq_some_iff.mp stepped
      obtain ⟨rfl, same⟩ := Option.ite_none_right_eq_some.mp left
      cases same
      exact .received steps (Channel.recv_eq_some.mp taken)
  | ticked =>
    cases stepped
    exact .ticked steps
  | iterated order =>
    cases stepped
    exact .iterated steps
  | shutdown =>
    obtain ⟨stopping, same⟩ := Option.ite_none_right_eq_some.mp stepped
    cases same
    exact .shutdown steps stopping
  | enqueued sender message isOk =>
    obtain ⟨connection, found, stepped⟩ := Option.bind_eq_some_iff.mp stepped
    split at stepped
    · rename_i gone
      cases isOk with
      | true => cases stepped
      | false =>
        cases stepped
        exact .unqueued steps found gone
    · rename_i alive
      cases isOk with
      | true =>
        obtain ⟨outbound, sent, rfl⟩ := Option.map_eq_some_iff.mp stepped
        exact .enqueued steps found alive (Channel.send_eq_some.mp sent)
      | false => cases stepped
  | forwarded event isOk =>
    dsimp only at stepped
    split at stepped
    · rename_i gone
      cases isOk with
      | true => cases stepped
      | false =>
        cases stepped
        exact .unforwarded steps gone
    · rename_i alive
      cases isOk with
      | true =>
        obtain ⟨network, sent, rfl⟩ := Option.map_eq_some_iff.mp stepped
        exact .forwarded steps alive (Channel.send_eq_some.mp sent)
      | false => cases stepped

/-- The steps of the adapter, with the channels and the response that it waits for. -/
inductive AdapterSteps (node : Node) : AdapterAction → Node → Prop
  | closed {adapter} : node.adapter.step (.received none) = some adapter →
      AdapterSteps node (.received none) { node with adapter := adapter }
  | received {event adapter} {rest : Channel NetworkEvent 256} :
      node.adapter.step (.received (some event)) = some adapter → node.network.items = event :: rest.items →
      AdapterSteps node (.received (some event)) { node with adapter := adapter, network := rest }
  | submitted {message adapter} {requests : Channel ProcessorMessage 256} :
      node.adapter.step (.submitted message true) = some adapter →
      requests.items = node.requests.items ++ [message] →
      AdapterSteps node (.submitted message true) { node with adapter := adapter, requests := requests }
  | unsubmitted {message adapter} : node.adapter.step (.submitted message false) = some adapter →
      node.processing = false → AdapterSteps node (.submitted message false) { node with adapter := adapter }
  | answered {response adapter} : node.adapter.step (.answered (some response)) = some adapter →
      node.response = some response →
      AdapterSteps node (.answered (some response)) { node with adapter := adapter, response := none }
  | dropped {adapter} : node.adapter.step (.answered none) = some adapter → node.response = none →
      node.processing = false → AdapterSteps node (.answered none) { node with adapter := adapter }
  | readHead {head adapter} : node.adapter.step (.readHead head) = some adapter →
      AdapterSteps node (.readHead head) { node with adapter := adapter }
  | replied {event adapter} {events : Channel PeerEvent 256} :
      node.adapter.step (.replied event true) = some adapter → node.manager.point ≠ .ended →
      events.items = node.events.items ++ [event] →
      AdapterSteps node (.replied event true) { node with adapter := adapter, events := events }
  | unreplied {event adapter} : node.adapter.step (.replied event false) = some adapter →
      AdapterSteps node (.replied event false) { node with adapter := adapter }

theorem stepAdapter_adapterSteps {action : AdapterAction} (stepped : node.stepAdapter action = some next) :
    node.AdapterSteps action next := by
  obtain ⟨adapter, moved, stepped⟩ := Option.bind_eq_some_iff.mp stepped
  cases action with
  | received event =>
    cases event with
    | none =>
      obtain ⟨_, same⟩ := Option.ite_none_right_eq_some.mp stepped
      cases same
      exact .closed moved
    | some event =>
      obtain ⟨⟨first, rest⟩, taken, stepped⟩ := Option.bind_eq_some_iff.mp stepped
      obtain ⟨rfl, same⟩ := Option.ite_none_right_eq_some.mp stepped
      cases same
      exact .received moved (Channel.recv_eq_some.mp taken)
  | submitted message isOk =>
    dsimp only at stepped
    split at stepped
    · cases isOk with
      | true =>
        obtain ⟨requests, sent, rfl⟩ := Option.map_eq_some_iff.mp stepped
        exact .submitted moved (Channel.send_eq_some.mp sent)
      | false => cases stepped
    · rename_i gone
      cases isOk with
      | true => cases stepped
      | false =>
        cases stepped
        exact .unsubmitted moved (Bool.eq_false_iff.mpr gone)
  | answered response =>
    cases response with
    | none =>
      obtain ⟨⟨absent, gone⟩, same⟩ := Option.ite_none_right_eq_some.mp stepped
      cases same
      exact .dropped moved absent gone
    | some response =>
      obtain ⟨present, same⟩ := Option.ite_none_right_eq_some.mp stepped
      cases same
      exact .answered moved present
  | readHead head =>
    obtain ⟨_, _, stepped⟩ := Option.bind_eq_some_iff.mp stepped
    cases stepped
    exact .readHead moved
  | replied event isOk =>
    rcases sendEvent_eq_some.mp stepped with ⟨rfl, alive, events, same, rfl⟩ | ⟨rfl, gone, rfl⟩
    · exact .replied moved alive same
    · exact .unreplied moved

theorem AdapterSteps.moved {action : AdapterAction} (steps : node.AdapterSteps action next) :
    node.adapter.step action = some next.adapter := by
  cases steps with
  | closed moved | received moved | submitted moved | unsubmitted moved | answered moved | dropped moved
  | readHead moved | replied moved | unreplied moved => exact moved

theorem stepAdapter_steps {action : AdapterAction} (stepped : node.stepAdapter action = some next) :
    node.Steps chainId (.adapter action) next := by
  have steps := stepAdapter_adapterSteps stepped
  have own : ∀ own, NodeAction.adapter action = .adapter own → node.adapter.step own = some next.adapter := by
    intro own same
    cases same
    exact steps.moved
  cases steps with
  | replied moved alive sent => exact .replied moved alive sent
  | closed | received | submitted | unsubmitted | answered | dropped | readHead | unreplied =>
    exact .aside (by simp) (by simp) rfl rfl rfl rfl (by simp) (fun _ => ⟨rfl, rfl⟩) own

theorem stepProcessor_aside (stepped : node.stepProcessor host = some next) :
    next.connections = node.connections ∧ next.manager = node.manager ∧ next.events = node.events ∧
      next.peerCounter = node.peerCounter ∧ next.adapter = node.adapter ∧ next.network = node.network := by
  unfold stepProcessor at stepped
  split at stepped
  · obtain ⟨⟨message, requests⟩, _, stepped⟩ := Option.bind_eq_some_iff.mp stepped
    cases message with
    | newBlock block peerId =>
      dsimp only at stepped
      split at stepped <;> cases stepped <;> exact ⟨rfl, rfl, rfl, rfl, rfl, rfl⟩
    | getAccountState address =>
      dsimp only at stepped
      split at stepped <;> cases stepped <;> exact ⟨rfl, rfl, rfl, rfl, rfl, rfl⟩
    | shutdown =>
      dsimp only at stepped
      split at stepped <;> cases stepped <;> exact ⟨rfl, rfl, rfl, rfl, rfl, rfl⟩
  · cases stepped

theorem step_steps {action : NodeAction} (stepped : node.step host chainId action = some next) :
    node.Steps chainId action next := by
  cases action with
  | accepted =>
    obtain ⟨listening, stepped⟩ := Option.ite_none_right_eq_some.mp stepped
    obtain ⟨counter, fits, rfl⟩ := Option.map_eq_some_iff.mp stepped
    exact .accepted listening fits
  | connection peerId action => exact stepConnection_steps stepped
  | manager action => exact stepManager_steps stepped
  | adapter action => exact stepAdapter_steps stepped
  | processed =>
    obtain ⟨connections, manager, events, counter, kept⟩ := stepProcessor_aside stepped
    exact .aside (by simp) (by simp) connections manager events counter (fun _ => kept) (by simp) (by simp)
  | signalled =>
    obtain ⟨_, same⟩ := Option.ite_none_left_eq_some.mp stepped
    cases same
    exact .aside (by simp) (by simp) rfl rfl rfl rfl (fun _ => ⟨rfl, rfl⟩) (fun _ => ⟨rfl, rfl⟩) (by simp)
  | unlistened =>
    obtain ⟨_, same⟩ := Option.ite_none_right_eq_some.mp stepped
    cases same
    exact .aside (by simp) (by simp) rfl rfl rfl rfl (fun _ => ⟨rfl, rfl⟩) (fun _ => ⟨rfl, rfl⟩) (by simp)
  | finished =>
    obtain ⟨_, requests, _, rfl⟩ := finish_sends stepped
    exact .aside (by simp) (by simp) rfl rfl rfl rfl (fun _ => ⟨rfl, rfl⟩) (fun _ => ⟨rfl, rfl⟩) (by simp)

end Inversion

section Processor
variable {host : Host} {chainId : U64} {genesis : Genesis} {node next : Node}

/-- Only its own steps change the processor. -/
theorem Steps.processor {action : NodeAction} (steps : node.Steps chainId action next) (other : action ≠ .processed) :
    next.processor = node.processor ∧ next.processing = node.processing := by
  cases steps with
  | accepted | outside | took | emitted | unemitted | received | ticked | iterated | shutdown | enqueued | unqueued
  | forwarded | unforwarded | replied => exact ⟨rfl, rfl⟩
  | aside _ _ _ _ _ _ _ kept => exact kept other

theorem stepProcessor_reach (stepped : node.stepProcessor host = some next)
    (reach : node.processing = true → Reach host genesis node.processor) (running : next.processing = true) :
    Reach host genesis next.processor := by
  unfold stepProcessor at stepped
  split at stepped
  · rename_i alive
    obtain ⟨⟨message, requests⟩, _, stepped⟩ := Option.bind_eq_some_iff.mp stepped
    cases message with
    | newBlock block peerId =>
      dsimp only at stepped
      split at stepped
      · rename_i delivered
        cases stepped
        exact (reach alive).next delivered
      · cases stepped
        cases running
    | getAccountState address =>
      dsimp only at stepped
      split at stepped
      · cases stepped
        exact reach alive
      · cases stepped
        exact reach alive
      · cases stepped
        cases running
    | shutdown =>
      dsimp only at stepped
      split at stepped <;> cases stepped <;> cases running
  · cases stepped

/-- Whatever the peers send, a running processor is in a state that a run of messages leads to. -/
theorem runs_reach {processor : BlockProcessor} {actions : List NodeAction}
    (ran : runs (step host chainId) (start processor) actions = some node) (reach : Reach host genesis processor)
    (running : node.processing = true) : Reach host genesis node.processor := by
  refine runs_invariant (P := fun here => here.processing = true → Reach host genesis here.processor) ?_ ran
    (fun _ => reach) running
  intro here action next kept stepped running
  by_cases own : action = .processed
  · subst own
    exact stepProcessor_reach stepped kept running
  · obtain ⟨same, same'⟩ := (step_steps stepped).processor own
    rw [same]
    exact kept (same' ▸ running)

end Processor

section Possible
variable {host : Host} {chainId : U64} {node : Node} {peerId : PeerId}

/-- A message comes in from the socket. -/
theorem step_message {connection : Connection} {state : HandshakeState} (message : Message)
    (found : node.connections.lookup peerId = some connection) (waits : connection.point = .select state) :
    node.step host chainId (.connection peerId (.received (some (.ok message)))) =
      some (node.setConnection peerId
        { connection with point := ConnectionPoint.handleMessage (context chainId peerId) state message }) := by
  simp [step, stepConnection, found, ConnectionPoint.step, waits]

theorem step_emitted {connection : Connection} {point : ConnectionPoint} {event : PeerEvent}
    {events : Channel PeerEvent 256} (found : node.connections.lookup peerId = some connection)
    (moved : ConnectionPoint.Steps (context chainId peerId) connection.point (.emitted event true) point)
    (alive : node.manager.point ≠ .ended) (sent : events.items = node.events.items ++ [event]) :
    node.step host chainId (.connection peerId (.emitted event true)) =
      some { node.setConnection peerId { connection with point := point } with events := events } := by
  have stepped := ConnectionPoint.step_eq_some.mpr moved
  change node.stepConnection chainId peerId _ = _
  unfold stepConnection
  rw [found, Option.bind_eq_bind, Option.bind_some, stepped, Option.bind_eq_bind, Option.bind_some]
  exact sendEvent_eq_some.mpr (.inl ⟨rfl, alive, events, sent, rfl⟩)

theorem step_received {event : PeerEvent} {manager : Manager} {rest : Channel PeerEvent 256}
    (moved : node.manager.Steps (.received (some event)) manager) (taken : node.events.items = event :: rest.items) :
    node.step host chainId (.manager (.received (some event))) =
      some { node with manager := manager, events := rest } := by
  change node.stepManager _ = _
  unfold stepManager
  rw [Manager.step_eq_some.mpr moved, Option.bind_eq_bind, Option.bind_some, Channel.recv_eq_some.mpr taken]
  exact if_pos rfl

theorem step_enqueued {sender : PeerSender} {message : Message} {manager : Manager} {connection : Connection}
    {outbound : Channel Message 32} (moved : node.manager.Steps (.enqueued sender message true) manager)
    (found : node.connections.lookup sender.channel = some connection) (alive : connection.point ≠ .ended)
    (sent : outbound.items = connection.outbound.items ++ [message]) :
    node.step host chainId (.manager (.enqueued sender message true)) =
      some (setConnection { node with manager := manager } sender.channel { connection with outbound := outbound }) := by
  change node.stepManager _ = _
  unfold stepManager
  rw [Manager.step_eq_some.mpr moved, Option.bind_eq_bind, Option.bind_some]
  simp [found, alive, Channel.send_eq_some.mpr sent]

end Possible

end Node

end MiniEthNode
