import Mathlib.Logic.Relation
import MiniEthNode.Networking.Traffic

namespace MiniEthNode
open Rust

inductive Task where
  | connection (peerId : PeerId)
  | manager
  | adapter
  | processor
  deriving DecidableEq

inductive ChannelId where
  | events
  | network
  | requests
  | outbound (peerId : PeerId)
  deriving DecidableEq

/-- The only task that receives from a channel. -/
def ChannelId.reader : ChannelId → Task
  | events => .manager
  | network => .adapter
  | requests => .processor
  | outbound peerId => .connection peerId

/-- The tasks that take a step of their own. -/
def NodeAction.task : NodeAction → Option Task
  | .connection peerId _ => some (.connection peerId)
  | .manager _ => some .manager
  | .adapter _ => some .adapter
  | .processed => some .processor
  | .accepted | .signalled | .unlistened | .finished _ => none

/-- The connection is about to send an event. -/
def ConnectionPoint.Emits : ConnectionPoint → Prop
  | .register | .forward _ | .leave => True
  | _ => False

/-- The manager is about to send a message to a peer. -/
def ManagerPoint.SendsTo (sender : PeerSender) : ManagerPoint → Prop
  | .send _ sender' _ => sender' = sender
  | .broadcast _ ((_, sender') :: _) _ => sender' = sender
  | _ => False

/-- The adapter is about to send a message to the processor. -/
def AdapterPoint.Submits : AdapterPoint → Prop
  | .submit .. | .query .. => True
  | _ => False

namespace Node

/-- A task waits at a send into a full channel that its reader has not closed. -/
def Blocked (node : Node) : Task → ChannelId → Prop
  | .connection peerId, .events => node.events.IsFull ∧ node.manager.point ≠ .ended ∧
      ∃ connection, node.connections.lookup peerId = some connection ∧ connection.point.Emits
  | .manager, .outbound peerId => ∃ connection, node.connections.lookup peerId = some connection ∧
      connection.outbound.IsFull ∧ connection.point ≠ .ended ∧ node.manager.point.SendsTo ⟨peerId⟩
  | .manager, .network => node.network.IsFull ∧ node.adapter ≠ .ended ∧ ∃ event, node.manager.point = .forward event
  | .adapter, .events => node.events.IsFull ∧ node.manager.point ≠ .ended ∧
      ∃ peerId message, node.adapter = .reply peerId message
  | .adapter, .requests => node.requests.IsFull ∧ node.processing = true ∧ node.adapter.Submits
  | _, _ => False

/-- A task waits for the reader of the channel that it is blocked on. -/
def WaitsFor (node : Node) (task other : Task) : Prop := ∃ channel, node.Blocked task channel ∧ channel.reader = other

/-- The manager waits, through one or more full channels, for itself. -/
def CircularWait (node : Node) : Prop := Relation.TransGen node.WaitsFor .manager .manager

section Blocked
variable {host : Host} {chainId : U64} {node : Node}

theorem sendEvent_of_full (full : node.events.IsFull) (alive : node.manager.point ≠ .ended) (event : PeerEvent)
    (isOk : Bool) : node.sendEvent event isOk = none := by
  cases isOk <;> simp [sendEvent, alive, Channel.send_eq_none.mpr full]

theorem blocked_connection {peerId : PeerId} (blocked : node.Blocked (.connection peerId) .events)
    (own : ConnectionAction) : node.stepConnection chainId peerId own = none := by
  obtain ⟨full, alive, connection, found, emits⟩ := blocked
  refine Option.eq_none_iff_forall_ne_some.mpr fun next stepped => ?_
  have only {point : ConnectionPoint} {own : ConnectionAction}
      (moved : ConnectionPoint.Steps (context chainId peerId) connection.point own point) :
      ∃ event isOk, own = .emitted event isOk := by
    generalize connection.point = here at moved emits
    cases moved with
    | registered | forwarded | left => exact ⟨_, _, rfl⟩
    | message | codecError | closed | unwound | outbound | refused | readHead | replied | written => exact emits.elim
  cases stepConnection_steps stepped with
  | outside found' moved _ noEmit =>
    cases found.symm.trans found'
    obtain ⟨event, isOk, rfl⟩ := only moved
    exact noEmit event isOk rfl
  | took found' moved =>
    cases found.symm.trans found'
    obtain ⟨event, isOk, same⟩ := only moved
    cases same
  | emitted _ _ _ sent => exact full.not_sent sent
  | unemitted _ _ gone => exact alive gone
  | aside noConnection => exact noConnection _ _ rfl

theorem blocked_manager_outbound {peerId : PeerId} (blocked : node.Blocked .manager (.outbound peerId))
    (own : ManagerAction) : node.stepManager own = none := by
  obtain ⟨connection, found, full, alive, sends⟩ := blocked
  refine Option.eq_none_iff_forall_ne_some.mpr fun next stepped => ?_
  have only {manager : Manager} {own : ManagerAction} (moved : node.manager.Steps own manager) :
      ∃ message isOk, own = .enqueued ⟨peerId⟩ message isOk := by
    cases moved with
    | sent waits =>
      rw [waits] at sends
      exact ⟨_, _, by rw [show _ = (⟨peerId⟩ : PeerSender) from sends]⟩
    | broadcast waits =>
      rw [waits] at sends
      exact ⟨_, _, by rw [show _ = (⟨peerId⟩ : PeerSender) from sends]⟩
    | received waits | exhausted waits | ticked waits | shutdown waits | forwarded waits | iterated waits =>
      rw [waits] at sends
      exact sends.elim
  have steps : node.Steps 0 (.manager own) next := stepManager_steps stepped
  obtain ⟨message, isOk, rfl⟩ := only steps.manager_own
  cases steps with
  | enqueued _ found' _ sent =>
    cases found.symm.trans found'
    exact full.not_sent sent
  | unqueued _ found' gone =>
    cases found.symm.trans found'
    exact alive gone
  | aside _ noManager => exact noManager _ rfl

theorem blocked_manager_network (blocked : node.Blocked .manager .network) (own : ManagerAction) :
    node.stepManager own = none := by
  obtain ⟨full, alive, event, waits⟩ := blocked
  refine Option.eq_none_iff_forall_ne_some.mpr fun next stepped => ?_
  have only {manager : Manager} {own : ManagerAction} (moved : node.manager.Steps own manager) :
      ∃ event isOk, own = .forwarded event isOk := by
    cases moved with
    | forwarded => exact ⟨_, _, rfl⟩
    | received waits' | exhausted waits' | ticked waits' | shutdown waits' | sent waits' | iterated waits'
    | broadcast waits' => cases waits.symm.trans waits'
  have steps : node.Steps 0 (.manager own) next := stepManager_steps stepped
  obtain ⟨event', isOk, rfl⟩ := only steps.manager_own
  cases steps with
  | forwarded _ _ sent => exact full.not_sent sent
  | unforwarded _ gone => exact alive gone
  | aside _ noManager => exact noManager _ rfl

theorem blocked_adapter {channel : ChannelId} (blocked : node.Blocked .adapter channel) (own : AdapterAction) :
    node.stepAdapter own = none := by
  refine Option.eq_none_iff_forall_ne_some.mpr fun next stepped => ?_
  obtain ⟨adapter, moved, stepped⟩ := Option.bind_eq_some_iff.mp stepped
  cases channel with
  | events =>
    obtain ⟨full, alive, peerId, message, waits⟩ := blocked
    rw [waits] at moved
    cases own with
    | replied event isOk =>
      have stuck : sendEvent { node with adapter := adapter } event isOk = none := by
        apply sendEvent_of_full
        · exact full
        · exact alive
      cases stuck.symm.trans stepped
    | received | submitted | answered | readHead => cases moved
  | requests =>
    obtain ⟨full, running, submits⟩ := blocked
    cases own with
    | submitted message isOk =>
      rw [show node.processing = true from running] at stepped
      cases isOk with
      | true =>
        obtain ⟨requests, sent, _⟩ := Option.map_eq_some_iff.mp stepped
        exact full.not_sent (Channel.send_eq_some.mp sent)
      | false => cases stepped
    | received | replied | answered | readHead =>
      revert moved submits
      cases node.adapter <;> simp [AdapterPoint.step, AdapterPoint.Submits]
  | network | outbound => exact blocked.elim

/-- A blocked task takes no step. -/
theorem Blocked.stuck {task : Task} {channel : ChannelId} (blocked : node.Blocked task channel) {action : NodeAction}
    (own : action.task = some task) : node.step host chainId action = none := by
  cases action with
  | connection peerId action =>
    cases own
    cases channel with
    | events => exact blocked_connection blocked action
    | network | requests | outbound => exact blocked.elim
  | manager action =>
    cases own
    cases channel with
    | outbound peerId => exact blocked_manager_outbound blocked action
    | network => exact blocked_manager_network blocked action
    | events | requests => exact blocked.elim
  | adapter action =>
    cases own
    exact blocked_adapter blocked action
  | processed =>
    cases own
    cases channel <;> exact blocked.elim
  | accepted | signalled | unlistened | finished => cases own

theorem Blocked.not_own {task : Task} {channel : ChannelId} (blocked : node.Blocked task channel) {next : Node}
    {action : NodeAction} (stepped : node.step host chainId action = some next) : action.task ≠ some task :=
  fun own => Option.some_ne_none next (stepped.symm.trans (blocked.stuck own))

/-- The two ways for the manager to wait for itself. -/
theorem circularWait_iff : node.CircularWait ↔
    (∃ peerId, node.Blocked .manager (.outbound peerId) ∧ node.Blocked (.connection peerId) .events) ∨
      node.Blocked .manager .network ∧ node.Blocked .adapter .events := by
  constructor
  · intro circular
    obtain ⟨second, first, later⟩ := Relation.TransGen.head'_iff.mp circular
    obtain ⟨channel, blocked, rfl⟩ := first
    cases channel with
    | events | requests => exact blocked.elim
    | outbound peerId =>
      refine .inl ⟨peerId, blocked, ?_⟩
      rcases later.cases_head with same | ⟨third, ⟨channel, blocked', _⟩, _⟩
      · cases same
      · cases channel with
        | events => exact blocked'
        | network | requests | outbound => exact blocked'.elim
    | network =>
      refine .inr ⟨blocked, ?_⟩
      rcases later.cases_head with same | ⟨third, ⟨channel, blocked', rfl⟩, last⟩
      · cases same
      · cases channel with
        | events => exact blocked'
        | network | outbound => exact blocked'.elim
        | requests =>
          -- the processor waits for nobody
          rcases last.cases_head with same | ⟨fourth, ⟨channel, blocked'', _⟩, _⟩
          · cases same
          · cases channel <;> exact blocked''.elim
  · rintro (⟨peerId, first, second⟩ | ⟨first, second⟩)
    · exact .head ⟨_, first, rfl⟩ (.single ⟨_, second, rfl⟩)
    · exact .head ⟨_, first, rfl⟩ (.single ⟨_, second, rfl⟩)

/-- While the manager waits for a connection and this one for the manager, the others leave both as they are. -/
theorem Blocked.kept_outbound {next : Node} {action : NodeAction} {peerId : PeerId}
    (first : node.Blocked .manager (.outbound peerId)) (second : node.Blocked (.connection peerId) .events)
    (numbered : node.Numbered) (stepped : node.step host chainId action = some next) :
    next.Blocked .manager (.outbound peerId) ∧ next.Blocked (.connection peerId) .events ∧
      next.manager = node.manager := by
  have steps := step_steps stepped
  have notManager := first.not_own stepped
  have notConnection := second.not_own stepped
  obtain ⟨connection, found, full, alive, sends⟩ := first
  obtain ⟨filled, running, emitter, found', emits⟩ := second
  have lookup : next.connections.lookup peerId = node.connections.lookup peerId := by
    have moved := steps.connection numbered peerId
    rw [found] at moved ⊢
    generalize next.connections.lookup peerId = after at moved ⊢
    cases moved with
    | moved => exact (notConnection rfl).elim
    | took => exact (notConnection rfl).elim
    | enqueued => exact (notManager rfl).elim
    | apart => rfl
  have kept : next.events = node.events ∧ next.manager = node.manager := by
    cases steps with
    | accepted | outside | took | unemitted => exact ⟨rfl, rfl⟩
    | emitted _ _ _ sent => exact (filled.not_sent sent).elim
    | replied _ _ sent => exact (filled.not_sent sent).elim
    | received | ticked | iterated | shutdown | enqueued | unqueued | forwarded | unforwarded =>
      exact (notManager rfl).elim
    | aside _ _ _ manager events => exact ⟨events, manager⟩
  obtain ⟨events, manager⟩ := kept
  refine ⟨⟨connection, lookup.trans found, full, alive, ?_⟩, ⟨?_, ?_, emitter, lookup.trans found', emits⟩, manager⟩
  · rw [manager]
    exact sends
  · rw [events]
    exact filled
  · rw [manager]
    exact running

/-- While the manager waits for the adapter and this one for the manager, the others leave both as they are. -/
theorem Blocked.kept_network {next : Node} {action : NodeAction} (first : node.Blocked .manager .network)
    (second : node.Blocked .adapter .events) (stepped : node.step host chainId action = some next) :
    next.Blocked .manager .network ∧ next.Blocked .adapter .events ∧ next.manager = node.manager := by
  have notManager := first.not_own stepped
  have notAdapter := second.not_own stepped
  obtain ⟨full, alive, event, waits⟩ := first
  obtain ⟨filled, running, peerId, message, waits'⟩ := second
  have kept : next.events = node.events ∧ next.manager = node.manager ∧ next.adapter = node.adapter ∧
      next.network = node.network := by
    cases step_steps stepped with
    | accepted | outside | took | unemitted => exact ⟨rfl, rfl, rfl, rfl⟩
    | emitted _ _ _ sent => exact (filled.not_sent sent).elim
    | received | ticked | iterated | shutdown | enqueued | unqueued | forwarded | unforwarded =>
      exact (notManager rfl).elim
    | replied => exact (notAdapter rfl).elim
    | aside _ _ _ manager events _ adapter =>
      have others := adapter fun own same => notAdapter (by rw [same]; rfl)
      exact ⟨events, manager, others⟩
  obtain ⟨events, manager, adapter, network⟩ := kept
  refine ⟨⟨?_, ?_, event, ?_⟩, ⟨?_, ?_, peerId, message, adapter.trans waits'⟩, manager⟩
  · rw [network]
    exact full
  · rw [adapter]
    exact alive
  · rw [manager, waits]
  · rw [events]
    exact filled
  · rw [manager]
    exact running

/-- While the manager waits for itself, the others leave everything in the cycle as it is. -/
theorem CircularWait.kept {next : Node} {action : NodeAction} (circular : node.CircularWait) (numbered : node.Numbered)
    (stepped : node.step host chainId action = some next) : next.CircularWait ∧ next.manager = node.manager := by
  rcases circularWait_iff.mp circular with ⟨peerId, first, second⟩ | ⟨first, second⟩
  · obtain ⟨first, second, same⟩ := first.kept_outbound second numbered stepped
    exact ⟨circularWait_iff.mpr (.inl ⟨peerId, first, second⟩), same⟩
  · obtain ⟨first, second, same⟩ := first.kept_network second stepped
    exact ⟨circularWait_iff.mpr (.inr ⟨first, second⟩), same⟩

end Blocked

theorem CircularWait.full {node : Node} (circular : node.CircularWait) : node.events.IsFull := by
  rcases circularWait_iff.mp circular with ⟨peerId, _, full, _⟩ | ⟨_, full, _⟩
  · exact full
  · exact full

/-- The manager waits for itself only while the channel of its events is full, in one of two ways, and then forever.
The channel fills up only if what the peers have sent, counted twice, is 256 ahead of what the manager has taken. -/
theorem circular_wait_iff_full {host : Host} {chainId : U64} {processor : BlockProcessor} {actions : List NodeAction}
    {node : Node} (ran : runs (step host chainId) (start processor) actions = some node) :
    (2 * heardFromPeers actions < eventsHandled actions + 256 → ¬ node.CircularWait) ∧
    (¬ node.events.IsFull → ¬ node.CircularWait) ∧
    (node.CircularWait ↔
      (∃ peerId, node.Blocked .manager (.outbound peerId) ∧ node.Blocked (.connection peerId) .events) ∨
        node.Blocked .manager .network ∧ node.Blocked .adapter .events) ∧
    (node.CircularWait → ∀ more later, runs (step host chainId) node more = some later →
      later.CircularWait ∧ later.manager = node.manager) := by
  refine ⟨fun few circular => ?_, fun room circular => room circular.full, circularWait_iff,
    fun circular more later continued => ?_⟩
  · have bound := events_le_heard ran
    have full : node.events.items.length = 256 := circular.full
    omega
  · have kept := runs_invariant (P := fun here => here.Numbered ∧ here.CircularWait ∧ here.manager = node.manager)
      (fun here action next ⟨numbered, circular, same⟩ stepped => by
        obtain ⟨circular', same'⟩ := circular.kept numbered stepped
        exact ⟨(step_steps stepped).numbered numbered, circular', same'.trans same⟩) continued
      ⟨runs_numbered ran, circular, rfl⟩
    exact kept.2

section Pings
variable (host : Host) (chainId : U64) {node : Node} {peerId : PeerId} {queued answered : Nat}

/-- A registered peer with `Ping`s on the way to the manager and `Pong`s on the way back. -/
structure Pinging (peerId : PeerId) (queued answered : Nat) (node : Node) : Prop where
  connection : ∃ outbound : Channel Message 32, outbound.items = List.replicate answered .pong ∧
    node.connections.lookup peerId = some ⟨.select .established, outbound⟩
  idle : node.manager.point = .select
  registered : node.manager.peerMap.lookup peerId = some ⟨peerId⟩
  events : node.events.items = List.replicate queued (.message peerId .ping)

def readPing (peerId : PeerId) : NodeAction := .connection peerId (.received (some (.ok .ping)))

def passPing (peerId : PeerId) : NodeAction := .connection peerId (.emitted (.message peerId .ping) true)

def handlePing (peerId : PeerId) : NodeAction := .manager (.received (some (.message peerId .ping)))

def answerPing (peerId : PeerId) : NodeAction := .manager (.enqueued ⟨peerId⟩ .pong true)

/-- A peer that sends `Ping`s while its connection takes no `Pong` yet: 32 are answered, 256 more wait
for the manager, and with one at the manager two more come in. -/
def pingFlood (peerId : PeerId) : List NodeAction :=
  (List.replicate 32 [readPing peerId, passPing peerId, handlePing peerId, answerPing peerId]).flatten ++
    (List.replicate 256 [readPing peerId, passPing peerId]).flatten ++
    [handlePing peerId, readPing peerId, passPing peerId, readPing peerId]

theorem step_ping {outbound : Channel Message 32}
    (found : node.connections.lookup peerId = some ⟨.select .established, outbound⟩) :
    node.step host chainId (readPing peerId) =
      some (node.setConnection peerId ⟨.forward .ping, outbound⟩) :=
  step_message .ping found rfl

/-- A `Ping` comes in while the channel to the manager has room. -/
theorem Pinging.receive (pinging : Pinging peerId queued answered node) (room : queued < 256) :
    ∃ next, runs (step host chainId) node [readPing peerId, passPing peerId] = some next ∧
      Pinging peerId (queued + 1) answered next := by
  obtain ⟨outbound, pongs, found⟩ := pinging.connection
  have free : node.events.items.length < 256 := by
    rw [pinging.events, List.length_replicate]
    exact room
  obtain ⟨events, sent⟩ := Channel.exists_sent free (.message peerId .ping)
  have forwarding : (node.setConnection peerId ⟨.forward .ping, outbound⟩).connections.lookup peerId =
      some ⟨.forward .ping, outbound⟩ := Finmap.lookup_insert _
  have alive : (node.setConnection peerId ⟨.forward .ping, outbound⟩).manager.point ≠ .ended := by
    change node.manager.point ≠ _
    rw [pinging.idle]
    simp
  refine ⟨_, runs_cons_eq_some.mpr ⟨_, step_ping host chainId found, runs_singleton.trans
    (step_emitted forwarding .forwarded alive sent)⟩, ⟨outbound, pongs, Finmap.lookup_insert _⟩, pinging.idle,
    pinging.registered, ?_⟩
  rw [List.replicate_succ', ← pinging.events]
  exact sent

/-- The manager takes a `Ping` and waits to send the `Pong`. -/
theorem Pinging.handle (pinging : Pinging peerId (queued + 1) answered node) :
    ∃ rest : Channel PeerEvent 256, rest.items = List.replicate queued (.message peerId .ping) ∧
      node.step host chainId (handlePing peerId) =
        some { node with manager := ⟨.send peerId ⟨peerId⟩ .pong, node.manager.peerMap⟩, events := rest } := by
  have events := pinging.events
  rw [List.replicate_succ] at events
  obtain ⟨rest, fewer⟩ := Channel.exists_received events
  have replies : node.manager.handleEvent (.message peerId .ping) =
      ⟨.send peerId ⟨peerId⟩ .pong, node.manager.peerMap⟩ := by
    change node.manager.sendTo peerId .pong = _
    rw [Manager.sendTo, pinging.registered]
  refine ⟨rest, fewer, step_received ?_ (fewer ▸ events)⟩
  rw [← replies]
  exact .received pinging.idle

/-- A `Ping` is answered while the channel of the peer has room. -/
theorem Pinging.answer (pinging : Pinging peerId (queued + 1) answered node) (room : answered < 32) :
    ∃ next, runs (step host chainId) node [handlePing peerId, answerPing peerId] = some next ∧
      Pinging peerId queued (answered + 1) next := by
  obtain ⟨outbound, pongs, found⟩ := pinging.connection
  obtain ⟨rest, fewer, handled⟩ := pinging.handle host chainId
  have free : outbound.items.length < 32 := by
    rw [pongs, List.length_replicate]
    exact room
  obtain ⟨outbound', sent⟩ := Channel.exists_sent free .pong
  refine ⟨_, runs_cons_eq_some.mpr ⟨_, handled, runs_singleton.trans
    (step_enqueued (.sent rfl) found (by simp) sent)⟩, ⟨outbound', ?_, Finmap.lookup_insert _⟩, rfl,
    pinging.registered, fewer⟩
  rw [sent, pongs, List.replicate_succ']

/-- With both channels full, a `Ping` at the manager and two at the connection close the cycle. -/
theorem Pinging.circularWait (pinging : Pinging peerId 256 32 node) :
    ∃ next, runs (step host chainId) node [handlePing peerId, readPing peerId, passPing peerId, readPing peerId] =
      some next ∧ next.CircularWait := by
  obtain ⟨outbound, pongs, found⟩ := pinging.connection
  obtain ⟨rest, fewer, handled⟩ := pinging.handle host chainId
  have free : rest.items.length < 256 := by
    rw [fewer, List.length_replicate]
    decide
  obtain ⟨events, sent⟩ := Channel.exists_sent free (.message peerId .ping)
  -- the connection forwards a `Ping` into the place of the one that the manager has at hand, and has one more
  let handling : Node :=
    { node with manager := ⟨.send peerId ⟨peerId⟩ .pong, node.manager.peerMap⟩, events := rest }
  let forwarding : Node := handling.setConnection peerId ⟨.forward .ping, outbound⟩
  let forwarded : Node := { forwarding.setConnection peerId ⟨.select .established, outbound⟩ with events := events }
  have selecting : handling.connections.lookup peerId = some ⟨.select .established, outbound⟩ := found
  have first : handling.step host chainId (readPing peerId) = some forwarding :=
    step_ping host chainId selecting
  have alive : forwarding.manager.point ≠ .ended := ManagerPoint.noConfusion
  have second : forwarding.step host chainId (passPing peerId) = some forwarded :=
    step_emitted (Finmap.lookup_insert _) .forwarded alive sent
  have third : forwarded.step host chainId (readPing peerId) =
      some (forwarded.setConnection peerId ⟨.forward .ping, outbound⟩) :=
    step_ping host chainId (Finmap.lookup_insert _)
  refine ⟨_, runs_cons_eq_some.mpr ⟨_, handled, runs_cons_eq_some.mpr ⟨_, first, runs_cons_eq_some.mpr
    ⟨_, second, runs_singleton.trans third⟩⟩⟩, circularWait_iff.mpr (.inl ⟨peerId, ?_, ?_⟩)⟩
  · refine ⟨⟨.forward .ping, outbound⟩, Finmap.lookup_insert _, ?_, by simp, rfl⟩
    rw [Channel.IsFull, pongs, List.length_replicate]
  · refine ⟨?_, by simp [forwarded, forwarding, handling, setConnection], _, Finmap.lookup_insert _, trivial⟩
    change events.items.length = 256
    rw [sent, List.length_append, fewer, List.length_replicate]
    rfl

theorem Pinging.flood (pinging : Pinging peerId 0 0 node) :
    ∃ next, runs (step host chainId) node (pingFlood peerId) = some next ∧ next.CircularWait := by
  obtain ⟨answering, first, pongs⟩ := runs_rounds (P := fun answered => Pinging peerId 0 answered)
    (fun answered here room waits => by
      obtain ⟨asked, received, more⟩ := waits.receive host chainId (by decide)
      obtain ⟨next, answered, done⟩ := more.answer host chainId room
      exact ⟨next, runs_append_eq_some.mpr ⟨asked, received, answered⟩, done⟩)
    pinging (Nat.le_refl 32)
  obtain ⟨waiting, second, pings⟩ := runs_rounds (P := fun queued => Pinging peerId queued 32)
    (fun queued here room waits => waits.receive host chainId room) pongs (Nat.le_refl 256)
  obtain ⟨next, third, circular⟩ := pings.circularWait host chainId
  exact ⟨next, runs_append_eq_some.mpr ⟨waiting, runs_append_eq_some.mpr ⟨answering, first, second⟩, third⟩, circular⟩

end Pings

section Sample

theorem sampleJoin_pinging : ∃ node, runs (step sampleHost 1) sampleNode sampleJoin = some node ∧
    Pinging samplePeer 0 0 node := by
  have joins : (runs (step sampleHost 1) sampleNode sampleJoin).map (fun node =>
      (node.connections.lookup samplePeer, node.manager.point, node.manager.peerMap.lookup samplePeer,
        node.events.items)) = some (some ⟨.select .established, .empty⟩, .select, some ⟨samplePeer⟩, []) := by
    decide +kernel
  obtain ⟨node, ran, same⟩ := Option.map_eq_some_iff.mp joins
  simp only [Prod.mk.injEq] at same
  obtain ⟨found, idle, registered, noEvents⟩ := same
  exact ⟨node, ran, ⟨.empty, rfl, found⟩, idle, registered, noEvents⟩

/-- A peer that has joined, after one message. -/
theorem circular_wait_iff_full_joined : ∃ node, runs (step sampleHost 1) sampleNode sampleJoin = some node ∧
    heardFromPeers sampleJoin = 1 ∧ eventsHandled sampleJoin = 1 ∧ ¬ node.CircularWait := by
  obtain ⟨node, ran, _⟩ := sampleJoin_pinging
  exact ⟨node, ran, rfl, rfl, (circular_wait_iff_full ran).1 (by decide)⟩

/-- One peer, registered and then only sending `Ping`, brings the manager to wait for itself. -/
theorem circular_wait_by_pings :
    ∃ node, runs (step sampleHost 1) sampleNode (sampleJoin ++ pingFlood samplePeer) = some node ∧
      node.CircularWait := by
  obtain ⟨joined, ran, pinging⟩ := sampleJoin_pinging
  obtain ⟨node, flooded, circular⟩ := pinging.flood sampleHost 1
  exact ⟨node, runs_append_eq_some.mpr ⟨joined, ran, flooded⟩, circular⟩

end Sample

end Node

end MiniEthNode
