import MiniEthNode.Networking.Handshake
import MiniEthNode.Networking.Node
import MiniEthNode.Processor.Chain

namespace MiniEthNode
open Rust

/-- The actions of one connection in a run of the node. -/
def actionsOf (peerId : PeerId) (actions : List NodeAction) : List ConnectionAction :=
  actions.filterMap fun
    | .connection other action => if other = peerId then some action else none
    | _ => none

theorem mem_actionsOf {peerId : PeerId} {actions : List NodeAction} {action : ConnectionAction} :
    action ∈ actionsOf peerId actions ↔ NodeAction.connection peerId action ∈ actions := by
  unfold actionsOf
  rw [List.mem_filterMap]
  constructor
  · rintro ⟨other, member, own⟩
    split at own
    · split at own
      · rename_i same
        cases own
        exact same ▸ member
      · cases own
    · cases own
  · exact fun member => ⟨_, member, if_pos rfl⟩

namespace Node

/-- Where the task of a peer waits; before it is accepted, at the start. -/
def pointOf (node : Node) (peerId : PeerId) : ConnectionPoint :=
  ((node.connections.lookup peerId).map (·.point)).getD .start

/-- The counter is the last number given to a peer. -/
def Numbered (node : Node) : Prop :=
  ∀ peerId connection, node.connections.lookup peerId = some connection → peerId.id.toNat ≤ node.peerCounter.toNat

section Steps
variable {chainId : U64} {node next : Node} {action : NodeAction}

/-- All that a step does to the table of connections. -/
theorem Steps.connections (steps : node.Steps chainId action next) :
    (∃ counter, action = .accepted ∧ checkedAdd node.peerCounter 1 = some counter ∧ next.peerCounter = counter ∧
      next.connections = node.connections.insert ⟨counter⟩ ⟨.start, .empty⟩) ∨
    next.peerCounter = node.peerCounter ∧
      ((∃ peerId before after, node.connections.lookup peerId = some before ∧
        next.connections = node.connections.insert peerId after) ∨ next.connections = node.connections) := by
  cases steps with
  | accepted _ fits => exact .inl ⟨_, rfl, fits, rfl, rfl⟩
  | outside found => exact .inr ⟨rfl, .inl ⟨_, _, _, found, rfl⟩⟩
  | took found => exact .inr ⟨rfl, .inl ⟨_, _, _, found, rfl⟩⟩
  | emitted found => exact .inr ⟨rfl, .inl ⟨_, _, _, found, rfl⟩⟩
  | unemitted found => exact .inr ⟨rfl, .inl ⟨_, _, _, found, rfl⟩⟩
  | enqueued _ found => exact .inr ⟨rfl, .inl ⟨_, _, _, found, rfl⟩⟩
  | received | ticked | iterated | shutdown | unqueued | forwarded | unforwarded | replied =>
    exact .inr ⟨rfl, .inr rfl⟩
  | aside _ _ connections _ _ counter => exact .inr ⟨counter, .inr connections⟩

theorem Steps.numbered (steps : node.Steps chainId action next) (numbered : node.Numbered) : next.Numbered := by
  intro peerId connection found
  rcases steps.connections with ⟨counter, _, fits, same, table⟩ | ⟨same, ⟨other, before, after, known, table⟩ | table⟩
  · have larger := checkedAdd_eq_some.mp fits
    change node.peerCounter.toNat + 1 = _ at larger
    rw [table, HashMap.lookup_insert_ite] at found
    rw [same]
    split at found
    · rename_i here
      rw [here]
    · have known := numbered peerId connection found
      omega
  · rw [table, HashMap.lookup_insert_ite] at found
    rw [same]
    split at found
    · rename_i here
      exact numbered peerId before (here ▸ known)
    · exact numbered peerId connection found
  · rw [table] at found
    rw [same]
    exact numbered peerId connection found

/-- An accepted stream gets a number of its own. -/
theorem Numbered.fresh (numbered : node.Numbered) {counter : U64}
    (fits : checkedAdd node.peerCounter 1 = some counter) : node.connections.lookup ⟨counter⟩ = none := by
  have larger := checkedAdd_eq_some.mp fits
  change node.peerCounter.toNat + 1 = _ at larger
  refine Option.eq_none_iff_forall_ne_some.mpr fun connection known => ?_
  have bound := numbered ⟨counter⟩ connection known
  dsimp only at bound
  omega

/-- All that a step of the node does to the connection of one peer. -/
inductive ConnectionSteps (chainId : U64) (peerId : PeerId) : NodeAction → Option Connection → Option Connection → Prop
  | accepted : ConnectionSteps chainId peerId .accepted none (some ⟨.start, .empty⟩)
  | moved {own connection point} : (∀ rx, own ≠ .took rx) →
      ConnectionPoint.Steps (context chainId peerId) connection.point own point →
      ConnectionSteps chainId peerId (.connection peerId own) (some connection)
        (some { connection with point := point })
  | took {message connection point} {rest : Channel Message 32} :
      ConnectionPoint.Steps (context chainId peerId) connection.point (.took (some message)) point →
      connection.outbound.items = message :: rest.items →
      ConnectionSteps chainId peerId (.connection peerId (.took (some message))) (some connection) (some ⟨point, rest⟩)
  | enqueued {message connection} {outbound : Channel Message 32} :
      outbound.items = connection.outbound.items ++ [message] →
      ConnectionSteps chainId peerId (.manager (.enqueued ⟨peerId⟩ message true)) (some connection)
        (some { connection with outbound := outbound })
  | apart {action connection} : (∀ own, action ≠ .connection peerId own) →
      (∀ message, action ≠ .manager (.enqueued ⟨peerId⟩ message true)) →
      ConnectionSteps chainId peerId action connection connection

theorem Steps.connection (steps : node.Steps chainId action next) (numbered : node.Numbered) (peerId : PeerId) :
    ConnectionSteps chainId peerId action (node.connections.lookup peerId) (next.connections.lookup peerId) := by
  -- only the entry of one peer changes
  have one {other : PeerId} {after : Connection}
      (here : ConnectionSteps chainId other action (node.connections.lookup other) (some after))
      (apart : other ≠ peerId → (∀ own, action ≠ .connection peerId own) ∧
        ∀ message, action ≠ .manager (.enqueued ⟨peerId⟩ message true)) :
      ConnectionSteps chainId peerId action (node.connections.lookup peerId)
        ((node.connections.insert other after).lookup peerId) := by
    rw [HashMap.lookup_insert_ite]
    split
    · rename_i same
      rwa [same]
    · rename_i different
      obtain ⟨noConnection, noMessage⟩ := apart (Ne.symm different)
      exact .apart noConnection noMessage
  have own {other : PeerId} {part : ConnectionAction} (different : other ≠ peerId) :
      (∀ own, NodeAction.connection other part ≠ .connection peerId own) ∧
        ∀ message, NodeAction.connection other part ≠ .manager (.enqueued ⟨peerId⟩ message true) :=
    ⟨by simpa using different, by simp⟩
  cases steps with
  | accepted _ fits =>
    refine one ?_ fun _ => ⟨by simp, by simp⟩
    rw [numbered.fresh fits]
    exact .accepted
  | outside found moved noTook => exact one (found ▸ .moved noTook moved) own
  | took found moved taken => exact one (found ▸ .took moved taken) own
  | emitted found moved => exact one (found ▸ .moved (by simp) moved) own
  | unemitted found moved => exact one (found ▸ .moved (by simp) moved) own
  | enqueued _ found _ sent =>
    refine one (found ▸ .enqueued sent) fun different => ⟨by simp, fun message same => ?_⟩
    cases same
    exact different rfl
  | received | ticked | iterated | shutdown | unqueued | forwarded | unforwarded | replied =>
    exact .apart (by simp) (by simp)
  | aside noConnection noManager connections =>
    rw [connections]
    exact .apart (noConnection peerId) fun _ => noManager _

/-- The steps of the others leave a connection where it is. -/
theorem Steps.pointOf_other (steps : node.Steps chainId action next) (numbered : node.Numbered) {peerId : PeerId}
    (other : ∀ own, action ≠ .connection peerId own) : next.pointOf peerId = node.pointOf peerId := by
  have connection := steps.connection numbered peerId
  unfold pointOf
  generalize node.connections.lookup peerId = before, next.connections.lookup peerId = after at connection ⊢
  cases connection with
  | accepted | enqueued | apart => rfl
  | moved => exact (other _ rfl).elim
  | took => exact (other _ rfl).elim

/-- A step of a connection is one that it could take alone. -/
theorem Steps.pointOf_own {peerId : PeerId} {own : ConnectionAction}
    (steps : node.Steps chainId (.connection peerId own) next) (numbered : node.Numbered) :
    ConnectionPoint.Steps (context chainId peerId) (node.pointOf peerId) own (next.pointOf peerId) := by
  have connection := steps.connection numbered peerId
  unfold pointOf
  generalize node.connections.lookup peerId = before, next.connections.lookup peerId = after at connection ⊢
  cases connection with
  | moved _ moved => exact moved
  | took moved => exact moved
  | apart noConnection => exact (noConnection own rfl).elim

/-- Events come from the connections and, as messages to send, from the adapter. -/
theorem Steps.event_mem (steps : node.Steps chainId action next) {event : PeerEvent}
    (member : event ∈ next.events.items) :
    event ∈ node.events.items ∨
      (∃ peerId, action = .connection peerId (.emitted event true) ∧ (event = .connected peerId ⟨peerId⟩ ∨
        event = .disconnected peerId ∨ ∃ message, event = .message peerId message)) ∨
      ∃ peerId message, event = .sendMessage peerId message ∧ node.adapter = .reply peerId message := by
  cases steps with
  | @emitted peerId emitted connection _ _ _ moved _ sent =>
    rw [sent, List.mem_append, List.mem_singleton] at member
    rcases member with earlier | rfl
    · exact .inl earlier
    · refine .inr (.inl ⟨peerId, rfl, ?_⟩)
      generalize connection.point = here at moved
      cases moved with
      | registered => exact .inl rfl
      | forwarded => exact .inr (.inr ⟨_, rfl⟩)
      | left => exact .inr (.inl rfl)
  | received _ taken =>
    rw [taken]
    exact .inl (List.mem_cons_of_mem _ member)
  | replied moved _ sent =>
    rw [sent, List.mem_append, List.mem_singleton] at member
    rcases member with earlier | rfl
    · exact .inl earlier
    · obtain ⟨peerId, message, waits, same, _⟩ := AdapterPoint.step_replied moved
      exact .inr (.inr ⟨peerId, message, same, waits⟩)
  | accepted | outside | took | unemitted | ticked | iterated | shutdown | enqueued | unqueued | forwarded
  | unforwarded => exact .inl member
  | aside _ _ _ _ events =>
    rw [events] at member
    exact .inl member

theorem Steps.manager_own {own : ManagerAction} (steps : node.Steps chainId (.manager own) next) :
    node.manager.Steps own next.manager := by
  cases steps with
  | received moved | ticked moved | iterated moved | shutdown moved | enqueued moved | unqueued moved
  | forwarded moved | unforwarded moved => exact moved
  | aside _ noManager => exact (noManager own rfl).elim

/-- The manager moves by steps of its own, and what it receives was in the channel. -/
theorem Steps.manager (steps : node.Steps chainId action next) :
    next.manager = node.manager ∨ ∃ own, action = .manager own ∧ node.manager.Steps own next.manager ∧
      ∀ event, own = .received (some event) → event ∈ node.events.items := by
  cases steps with
  | accepted | outside | took | emitted | unemitted | replied => exact .inl rfl
  | received moved taken =>
    refine .inr ⟨_, rfl, moved, fun event same => ?_⟩
    cases same
    rw [taken]
    exact List.mem_cons_self
  | ticked moved => exact .inr ⟨_, rfl, moved, by simp⟩
  | iterated moved => exact .inr ⟨_, rfl, moved, by simp⟩
  | shutdown moved => exact .inr ⟨_, rfl, moved, by simp⟩
  | enqueued moved => exact .inr ⟨_, rfl, moved, by simp⟩
  | unqueued moved => exact .inr ⟨_, rfl, moved, by simp⟩
  | forwarded moved => exact .inr ⟨_, rfl, moved, by simp⟩
  | unforwarded moved => exact .inr ⟨_, rfl, moved, by simp⟩
  | aside _ _ _ manager => exact .inl manager

/-- The messages that wait for a connection came from the manager. -/
theorem Steps.outbound (steps : node.Steps chainId action next) (numbered : node.Numbered) {peerId : PeerId}
    {connection : Connection} (found : next.connections.lookup peerId = some connection) {message : Message}
    (member : message ∈ connection.outbound.items) :
    (∃ before, node.connections.lookup peerId = some before ∧ message ∈ before.outbound.items) ∨
      action = .manager (.enqueued ⟨peerId⟩ message true) := by
  have moved := steps.connection numbered peerId
  rw [found] at moved
  generalize node.connections.lookup peerId = before at moved ⊢
  cases moved with
  | accepted => cases member
  | moved => exact .inl ⟨_, rfl, member⟩
  | took _ taken => exact .inl ⟨_, rfl, taken ▸ List.mem_cons_of_mem _ member⟩
  | enqueued sent =>
    rw [sent, List.mem_append, List.mem_singleton] at member
    rcases member with earlier | rfl
    · exact .inl ⟨_, rfl, earlier⟩
    · exact .inr rfl
  | apart => exact .inl ⟨_, rfl, member⟩

end Steps

theorem runs_numbered {host : Host} {chainId : U64} {processor : BlockProcessor} {actions : List NodeAction}
    {node : Node} (ran : runs (step host chainId) (start processor) actions = some node) : node.Numbered :=
  runs_invariant (P := Numbered) (fun _ _ _ numbered stepped => (step_steps stepped).numbered numbered) ran
    fun _ _ found => by cases found

/-- In a run of the node every connection runs as it would alone. -/
theorem runs_connection {host : Host} {chainId : U64} {processor : BlockProcessor} {actions : List NodeAction}
    {node : Node} (ran : runs (step host chainId) (start processor) actions = some node) (peerId : PeerId) :
    runs (ConnectionPoint.step (context chainId peerId)) .start (actionsOf peerId actions) =
      some (node.pointOf peerId) := by
  have initial : (start processor).Numbered := fun _ _ found => by cases found
  refine runs_project (f := fun node => node.pointOf peerId) ?_ ?_ ?_ ran initial
  · exact fun here action next numbered stepped => (step_steps stepped).numbered numbered
  · intro here action next numbered stepped other
    refine (step_steps stepped).pointOf_other numbered ?_
    rintro own rfl
    simp at other
  · intro here action next part numbered stepped own
    split at own
    · split at own
      · rename_i same
        cases own
        subst same
        exact ConnectionPoint.step_eq_some.mpr ((step_steps stepped).pointOf_own numbered)
      · cases own
    · cases own

/-- The connection of a peer has told the manager of it. -/
def Announced (actions : List NodeAction) (peerId : PeerId) : Prop :=
  NodeAction.connection peerId (.emitted (.connected peerId ⟨peerId⟩) true) ∈ actions

/-- An event from a connection is one that this connection has emitted. -/
def Told (actions : List NodeAction) : PeerEvent → Prop
  | .connected peerId sender => sender = ⟨peerId⟩ ∧ Announced actions peerId
  | .message peerId message => NodeAction.connection peerId (.emitted (.message peerId message) true) ∈ actions
  | .disconnected _ | .sendMessage .. => True

theorem Told.mono {first second : List NodeAction} (sub : first ⊆ second) {event : PeerEvent}
    (told : Told first event) : Told second event := by
  cases event with
  | connected peerId sender => exact ⟨told.1, sub told.2⟩
  | message peerId message => exact sub told
  | disconnected peerId => trivial
  | sendMessage peerId message => trivial

/-- Whatever concerns a peer comes from the connection of the peer. -/
structure Sourced (actions : List NodeAction) (node : Node) : Prop where
  events : ∀ event ∈ node.events.items, Told actions event
  senders : ∀ id sender, node.manager.Holds id sender → sender = ⟨id⟩ ∧ Announced actions id
  forward : ∀ event, node.manager.point = .forward event → ∃ message,
    NodeAction.connection event.peerId (.emitted (.message event.peerId message) true) ∈ actions
  outbound : ∀ peerId connection message, node.connections.lookup peerId = some connection →
    message ∈ connection.outbound.items → Announced actions peerId

theorem Sourced.step {chainId : U64} {actions : List NodeAction} {action : NodeAction} {node next : Node}
    (sourced : Sourced actions node) (numbered : node.Numbered) (steps : node.Steps chainId action next) :
    Sourced (actions ++ [action]) next := by
  have sub : actions ⊆ actions ++ [action] := List.subset_append_left _ _
  have last : action ∈ actions ++ [action] := List.mem_append_right _ List.mem_cons_self
  refine ⟨?_, ?_, ?_, ?_⟩
  · intro event member
    rcases steps.event_mem member with earlier | ⟨peerId, rfl, rfl | rfl | ⟨message, rfl⟩⟩ | ⟨peerId, message, rfl, _⟩
    · exact (sourced.events event earlier).mono sub
    · exact ⟨rfl, last⟩
    · trivial
    · exact last
    · trivial
  · intro id sender holds
    rcases steps.manager with same | ⟨own, rfl, moved, taken⟩
    · rw [same] at holds
      exact (sourced.senders id sender holds).imp_right fun announced => sub announced
    · rcases moved.holds holds with before | rfl
      · exact (sourced.senders id sender before).imp_right fun announced => sub announced
      · exact (sourced.events _ (taken _ rfl)).mono sub
  · intro event waits
    rcases steps.manager with same | ⟨own, rfl, moved, taken⟩
    · rw [same] at waits
      exact (sourced.forward event waits).imp fun _ emitted => sub emitted
    · obtain ⟨message, rfl⟩ := moved.forward waits
      exact ⟨message, sub (sourced.events _ (taken _ rfl))⟩
  · intro peerId connection message found member
    rcases steps.outbound numbered found member with ⟨before, known, earlier⟩ | rfl
    · exact sub (sourced.outbound peerId before message known earlier)
    · obtain ⟨id, holds⟩ : ∃ id, node.manager.Holds id ⟨peerId⟩ := steps.manager_own.enqueued_holds
      obtain ⟨same, announced⟩ := sourced.senders id ⟨peerId⟩ holds
      cases same
      exact sub announced

theorem runs_sourced {host : Host} {chainId : U64} {processor : BlockProcessor} {actions : List NodeAction}
    {node : Node} (ran : runs (Node.step host chainId) (Node.start processor) actions = some node) :
    Sourced actions node := by
  refine runs_history (P := Sourced) ?_ ?_ ran
  · refine ⟨?_, ?_, ?_, ?_⟩
    · intro event member
      cases member
    · rintro id sender (kept | ⟨message, waits⟩ | ⟨_, _, _, waits, _⟩)
      · cases kept
      · cases waits
      · cases waits
    · intro event waits
      cases waits
    · intro peerId connection message found
      cases found
  · intro actions action here next first sourced stepped
    exact sourced.step (runs_numbered first) (step_steps stepped)

end Node

/-- The connection of a peer was registered after the handshake for the right chain. -/
def Handshaken (chainId : U64) (actions : List NodeAction) (peerId : PeerId) : Prop :=
  ∃ earlier later, actionsOf peerId actions = earlier ++ .emitted (.connected peerId ⟨peerId⟩) true :: later ∧
    Greeted (Node.context chainId peerId) earlier

section Runs
variable {host : Host} {chainId : U64} {processor : BlockProcessor} {actions : List NodeAction} {node : Node}

theorem Ordered.connected_mem {context : ConnectionContext} {events : List PeerEvent}
    (ordered : Ordered context events) {peerId : PeerId} {message : Message}
    (member : PeerEvent.message peerId message ∈ events) :
    .connected context.peerId context.peerSender ∈ events := by
  rcases ordered with left | ⟨_, ⟨messages, _, rfl⟩, opened⟩
  · cases List.mem_singleton.mp (left.subset member)
  · cases events with
    | nil => cases member
    | cons first rest =>
      rw [List.cons_append, List.cons_prefix_cons] at opened
      exact opened.1 ▸ List.mem_cons_self

theorem handshaken_of_message
    (ran : runs (Node.step host chainId) (Node.start processor) actions = some node) {peerId : PeerId}
    {message : Message} (emitted : .connection peerId (.emitted (.message peerId message) true) ∈ actions) :
    Handshaken chainId actions peerId := by
  have safe := runs_handshakeSafe (Node.runs_connection ran peerId)
  have connected := safe.ordered.connected_mem (mem_emittedEvents.mpr (mem_actionsOf.mpr emitted))
  obtain ⟨earlier, later, same⟩ := List.append_of_mem (mem_emittedEvents.mp connected)
  exact ⟨earlier, later, same, safe.greeted earlier later _ _ _ same⟩

/-- A connection takes no message from the manager before it is established. -/
theorem took_established {before after : List NodeAction} {peerId : PeerId} {rx : Option Message}
    (ran : runs (Node.step host chainId) (Node.start processor)
      (before ++ .connection peerId (.took rx) :: after) = some node) :
    ∃ here, runs (Node.step host chainId) (Node.start processor) before = some here ∧
      Node.Announced before peerId ∧ here.pointOf peerId = .select .established := by
  obtain ⟨here, next, first, stepped, _⟩ := runs_split ran
  have steps := Node.step_steps stepped
  have progressed := runs_progressed (Node.runs_connection first peerId)
  have announced : Node.Announced before peerId := by
    cases steps with
    | outside _ _ noTook => exact (noTook _ rfl).elim
    | took found _ taken => exact (Node.runs_sourced first).outbound _ _ _ found (taken ▸ List.mem_cons_self)
    | aside noConnection => exact (noConnection _ _ rfl).elim
  refine ⟨here, first, announced, ?_⟩
  have moved := steps.pointOf_own (Node.runs_numbered first)
  generalize here.pointOf peerId = point at moved progressed ⊢
  generalize next.pointOf peerId = point' at moved
  cases moved with
  | @outbound state =>
    cases state with
    | awaitingStatus =>
      obtain ⟨message, same⟩ := progressed _ (mem_actionsOf.mpr announced)
      cases same
    | established => rfl

end Runs

/-- The handshake, for every connection alone and for every run of a node. -/
theorem handshake_safety (host : Host) (chainId : U64) :
    (∀ context actions point, runs (ConnectionPoint.step context) .start actions = some point →
      HandshakeSafe context actions) ∧
    (∀ processor actions node, runs (Node.step host chainId) (Node.start processor) actions = some node →
      (∀ peerId, HandshakeSafe (Node.context chainId peerId) (actionsOf peerId actions)) ∧
      (∀ before after peerId rx, actions = before ++ .connection peerId (.took rx) :: after →
        ∃ here, runs (Node.step host chainId) (Node.start processor) before = some here ∧
          Node.Announced before peerId ∧ here.pointOf peerId = .select .established) ∧
      ∀ before after event isOk, actions = before ++ .manager (.forwarded event isOk) :: after →
        Handshaken chainId before event.peerId) := by
  refine ⟨fun context actions point => runs_handshakeSafe, fun processor actions node ran => ⟨?_, ?_, ?_⟩⟩
  · exact fun peerId => runs_handshakeSafe (Node.runs_connection ran peerId)
  · rintro before after peerId rx rfl
    exact took_established ran
  · rintro before after event isOk rfl
    obtain ⟨here, next, first, stepped, _⟩ := runs_split ran
    have waits : here.manager.point = .forward event := by
      have moved := (Node.step_steps stepped).manager_own
      generalize next.manager = manager at moved
      cases moved with
      | forwarded waits => exact waits
    obtain ⟨message, emitted⟩ := (Node.runs_sourced first).forward event waits
    exact handshaken_of_message first emitted

section Sample

def samplePeer : PeerId := ⟨1⟩

def sampleNode : Node := Node.start (sampleGenesis.processor sampleHost)

def sampleHead : ChainHead :=
  ⟨0, .ofNat 0xac323fb52305d0e53e6ecd545dc3d05abf57d846260129534c1966d2deeef619, 0⟩

def sampleStatus : Message := .status 1 sampleHead.hash sampleHead.totalDifficulty

/-- A peer connects, sends its status and is registered. -/
def sampleJoinOf (peerId : PeerId) : List NodeAction := [
  .accepted,
  .connection peerId (.received (some (.ok sampleStatus))),
  .connection peerId (.readHead sampleHead),
  .connection peerId (.wrote sampleStatus true),
  .connection peerId (.emitted (.connected peerId ⟨peerId⟩) true),
  .manager (.received (some (.connected peerId ⟨peerId⟩)))]

def sampleJoin : List NodeAction := sampleJoinOf samplePeer

/-- The peer asks for the head of the chain, and the manager passes that on. -/
def sampleRequest : List NodeAction := [
  .connection samplePeer (.received (some (.ok .getChainHead))),
  .connection samplePeer (.emitted (.message samplePeer .getChainHead) true),
  .manager (.received (some (.message samplePeer .getChainHead)))]

theorem handshake_safety_request : ∃ node,
    runs (Node.step sampleHost 1) sampleNode
      ((sampleJoin ++ sampleRequest) ++ [.manager (.forwarded (.getChainHead samplePeer) true)]) = some node ∧
    Handshaken 1 (sampleJoin ++ sampleRequest) samplePeer := by
  have possible : (runs (Node.step sampleHost 1) sampleNode
      ((sampleJoin ++ sampleRequest) ++ [.manager (.forwarded (.getChainHead samplePeer) true)])).isSome = true := by
    decide +kernel
  obtain ⟨node, ran⟩ := Option.isSome_iff_exists.mp possible
  exact ⟨node, ran, ((handshake_safety sampleHost 1).2 _ _ node ran).2.2 _ [] (.getChainHead samplePeer) true rfl⟩

end Sample

end MiniEthNode
