import MiniEthNode.Networking.Completion

namespace MiniEthNode
open Rust

namespace Node

/-- The node can get from one state to another while its first peer sends and is told these messages. -/
def Exchanges (host : Host) (chainId : U64) (node node' : Node) (sent told : List Message) : Prop :=
  ∃ actions, runs (step host chainId) node actions = some node' ∧
    receivedMessages (actionsOf samplePeer actions) = sent ∧ framesTo samplePeer actions = told

/-- A node that waits everywhere, with one peer that has said its `Status`. -/
def attending (processor : BlockProcessor) : Node :=
  { start processor with
    peerCounter := 1
    connections := (∅ : HashMap PeerId Connection).insert samplePeer ⟨.select .established, .empty⟩
    manager := ⟨.select, (∅ : HashMap PeerId PeerSender).insert samplePeer ⟨samplePeer⟩⟩ }

/-- The same node with a request on its way to the adapter. -/
def asked (processor : BlockProcessor) (event : NetworkEvent) : Node :=
  { attending processor with network := ⟨[event], by simp⟩ }

/-- The same node with an answer of the adapter. -/
def answering (processor : BlockProcessor) (message : Message) : Node :=
  { attending processor with adapter := .reply samplePeer message }

section Phases
variable {host : Host} {chainId : U64} {processor processor' : BlockProcessor} {node between node' : Node}
  {sent told later answers : List Message}

theorem Exchanges.refl (node : Node) : Exchanges host chainId node node [] [] := ⟨[], rfl, rfl, rfl⟩

theorem Exchanges.trans (first : Exchanges host chainId node between sent told)
    (second : Exchanges host chainId between node' later answers) :
    Exchanges host chainId node node' (sent ++ later) (told ++ answers) := by
  obtain ⟨actions, ran, rfl, rfl⟩ := first
  obtain ⟨actions', ran', rfl, rfl⟩ := second
  refine ⟨actions ++ actions', runs_append_eq_some.mpr ⟨between, ran, ran'⟩, ?_, ?_⟩
  · rw [actionsOf, List.filterMap_append, receivedMessages_append]
    rfl
  · rw [framesTo, actionsOf, List.filterMap_append, List.filterMap_append]
    rfl

theorem joins (hash : B256) (totalDifficulty : U128) :
    Exchanges host chainId (start processor) (attending processor) [.status chainId hash totalDifficulty]
      [.status chainId processor.sharedHead.hash processor.sharedHead.totalDifficulty] := by
  refine ⟨[
    .accepted,
    .connection samplePeer (.received (some (.ok (.status chainId hash totalDifficulty)))),
    .connection samplePeer (.readHead processor.sharedHead),
    .connection samplePeer (.wrote (.status chainId processor.sharedHead.hash processor.sharedHead.totalDifficulty) true),
    .connection samplePeer (.emitted (.connected samplePeer ⟨samplePeer⟩) true),
    .manager (.received (some (.connected samplePeer ⟨samplePeer⟩)))], ?_, rfl, rfl⟩
  simp [runs, step, accept, start, stepConnection, setConnection, readHead, sendEvent, stepManager, checkedAdd, attending,
    ConnectionPoint.step, ConnectionPoint.handleMessage, ConnectionPoint.start, ConnectionPoint.statusReply,
    Channel.send, Channel.recv, Channel.empty, samplePeer, Manager.new, Manager.step, Manager.handleEvent, context]

/-- A message of the peer that the manager makes a request of. -/
theorem asks {message : Message} {event : NetworkEvent}
    (passes : ConnectionPoint.handleMessage (context chainId samplePeer) .established message = .forward message)
    (forwards : ∀ manager, Manager.handleMessage manager samplePeer message = { manager with point := .forward event }) :
    Exchanges host chainId (attending processor) (asked processor event) [message] [] := by
  refine ⟨sampleAsk message event, ?_, rfl, rfl⟩
  have own : (context chainId samplePeer).peerId = samplePeer := rfl
  simp [asked, sampleAsk, runs, step, stepConnection, attending, ConnectionPoint.step, passes, own, setConnection,
    sendEvent, start, Channel.send, Channel.recv, Channel.empty, stepManager, Manager.step, Manager.handleEvent, forwards]

theorem replies (message : Message) :
    Exchanges host chainId (answering processor message) (attending processor) [] [message] := by
  refine ⟨sampleReply message, ?_, rfl, rfl⟩
  simp [answering, sampleReply, sampleRelay, sampleWrite, runs, step, stepAdapter, AdapterPoint.step, stepConnection,
    attending, ConnectionPoint.step, ConnectionPoint.handleOutbound, setConnection, sendEvent, start, Channel.send,
    Channel.recv, Channel.empty, stepManager, Manager.step, Manager.handleEvent, Manager.sendTo]

end Phases

end Node

section Iteration
variable (host : Host) (order : Iteration Address) (signer : Signer)

variable (options : ClientOptions) (patience : Nat → Nat)

end Iteration

section Sample

end Sample

end MiniEthNode
