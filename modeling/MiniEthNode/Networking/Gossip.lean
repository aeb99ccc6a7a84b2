import MiniEthNode.Networking.Replies

namespace MiniEthNode
open Rust
open scoped List

def Message.gossip : Message → Option (List Transaction)
  | .transactions txs => some txs
  | .ping | .pong | .status .. | .getBlockHeaders .. | .newBlockHashes .. | .blockHeaders .. | .newBlock ..
  | .disconnect .. | .getAccountState .. | .accountState .. | .getChainHead | .chainHead .. => none

theorem Message.gossip_of_isAnswer {message : Message} (answer : message.isAnswer = true) : message.gossip = none := by
  cases message <;> first | rfl | cases answer

theorem Message.gossip_of_isStatus {message : Message} (status : message.isStatus = true) : message.gossip = none := by
  cases message <;> first | rfl | cases status

namespace NodeAction

/-- The manager gets transactions that it is to spread to the peer. -/
def heard (peerId : PeerId) : NodeAction → Option (PeerId × List Transaction)
  | .manager (.received (some (.message origin (.transactions txs)))) =>
    if origin = peerId then none else some (origin, txs)
  | _ => none

def spreads (peerId : PeerId) : NodeAction → Option (List Transaction)
  | .manager (.enqueued sender message true) => if sender = ⟨peerId⟩ then message.gossip else none
  | _ => none

def shows (peerId : PeerId) : NodeAction → Option (List Transaction)
  | .connection other (.wrote frame true) => if other = peerId then frame.gossip else none
  | _ => none

theorem spreads_of_apart {peerId : PeerId} {action : NodeAction}
    (apart : ∀ message, action ≠ .manager (.enqueued ⟨peerId⟩ message true)) : action.spreads peerId = none := by
  unfold spreads
  split
  · refine if_neg ?_
    rintro rfl
    exact apart _ rfl
  · rfl

theorem shows_of_apart {peerId : PeerId} {action : NodeAction} (apart : ∀ own, action ≠ .connection peerId own) :
    action.shows peerId = none := by
  unfold shows
  split
  · refine if_neg ?_
    rintro rfl
    exact apart _ rfl
  · rfl

end NodeAction

/-- The transactions that were written to a peer. -/
def gossipWritten (peerId : PeerId) (actions : List NodeAction) : List (List Transaction) :=
  (framesTo peerId actions).filterMap Message.gossip

/-- The transactions for a peer that the manager has got, with the peers that they come from. -/
def gossipHeard (peerId : PeerId) (actions : List NodeAction) : List (PeerId × List Transaction) :=
  actions.filterMap (NodeAction.heard peerId)

theorem gossipWritten_eq (peerId : PeerId) (actions : List NodeAction) :
    gossipWritten peerId actions = actions.filterMap (NodeAction.shows peerId) := by
  unfold gossipWritten framesTo actionsOf
  rw [List.filterMap_filterMap, List.filterMap_filterMap]
  refine List.filterMap_congr fun action _ => ?_
  match action with
  | .connection other (.wrote frame true) | .connection other (.wrote frame false) | .connection other (.received _)
  | .connection other .unwound | .connection other (.took _) | .connection other (.readHead _)
  | .connection other (.emitted ..) => by_cases here : other = peerId <;> simp [here, NodeAction.shows]
  | .accepted | .manager _ | .adapter _ | .processed | .signalled | .unlistened | .finished _ => rfl

section Manager

/-- The transactions that a loop has still to put into the channel of a peer. -/
def Broadcast.relaying (peerId : PeerId) (rest : List (PeerId × PeerSender)) : Broadcast → List (List Transaction)
  | .relay txs _ => (rest.filter fun entry => entry.1 = peerId).map fun _ => txs
  | .ping | .shutdown => []

def ManagerPoint.relaying (peerId : PeerId) : ManagerPoint → List (List Transaction)
  | .iterate (.relay txs origin) => if origin = peerId then [] else [txs]
  | .broadcast loop rest _ => loop.relaying peerId rest
  | .send id _ message => if id = peerId then message.gossip.toList else []
  | .iterate .ping | .iterate .shutdown | .select | .forward _ | .ended => []

namespace Manager
variable {manager next : Manager} {action : ManagerAction} {peerId : PeerId}

theorem relaying_advance (peerMap : HashMap PeerId PeerSender) (broadcast : Broadcast)
    (rest : List (PeerId × PeerSender)) (stalePeers : List PeerId) (peerId : PeerId) :
    (advance peerMap broadcast rest stalePeers).point.relaying peerId = broadcast.relaying peerId rest := by
  unfold advance
  split <;> rfl

theorem relaying_sendTo (select : manager.point = .select) (id : PeerId) {message : Message}
    (other : message.gossip = none) : (manager.sendTo id message).point.relaying peerId = [] := by
  unfold sendTo
  split
  · simp [ManagerPoint.relaying, other]
  · rw [select]
    rfl

/-- A loop over the peers comes to each of them once, and leaves out the peer that the transactions come from. -/
theorem relaying_order {order : List (PeerId × PeerSender)} (enumerates : manager.peerMap.Enumerates order)
    (broadcast : Broadcast) (peerId : PeerId) :
    Passes (manager.peerMap.lookup peerId).isSome ((ManagerPoint.iterate broadcast).relaying peerId)
      (broadcast.relaying peerId (order.filter fun entry => !broadcast.skips entry.1)) := by
  cases broadcast with
  | ping | shutdown => exact .of_eq rfl
  | relay txs origin =>
    have same : Broadcast.relaying peerId (order.filter fun entry => !(Broadcast.relay txs origin).skips entry.1)
        (.relay txs origin) = if origin = peerId then [] else ((manager.peerMap.lookup peerId).map fun _ => txs).toList := by
      rw [Broadcast.relaying, List.filter_filter]
      split
      · rename_i own
        subst own
        rw [List.map_eq_nil_iff, List.filter_eq_nil_iff]
        simp [Broadcast.skips]
      · rename_i other
        have kept : (fun entry : PeerId × PeerSender =>
            decide (entry.1 = peerId) && !(Broadcast.relay txs origin).skips entry.1) =
              fun entry => decide (entry.1 = peerId) := by
          funext entry
          by_cases here : entry.1 = peerId <;> simp [here, Broadcast.skips, Ne.symm other]
        rw [kept, enumerates.filter_key]
        cases manager.peerMap.lookup peerId <;> rfl
    rw [same]
    cases manager.peerMap.lookup peerId with
    | none => exact ⟨by simp, fun listed => by cases listed⟩
    | some sender => exact .of_eq rfl

/-- Transactions that the manager takes in it puts into the channels of the other peers before it takes in anything
else. They pass by a peer only if it is not registered, or if its task is gone. -/
theorem Steps.relaying (steps : manager.Steps action next)
    (senders : ∀ id sender, manager.Holds id sender → sender = ⟨id⟩)
    (answers : ∀ id message, action = .received (some (.sendMessage id message)) → message.gossip = none)
    (peerId : PeerId) :
    Passes ((manager.peerMap.lookup peerId).isSome ∧ ∀ message, action ≠ .enqueued ⟨peerId⟩ message false)
      (manager.point.relaying peerId ++ ((NodeAction.heard peerId (.manager action)).map Prod.snd).toList)
      ((NodeAction.spreads peerId (.manager action)).toList ++ next.point.relaying peerId) := by
  cases steps with
  | @received event select =>
    rw [select]
    cases event with
    | connected id sender | disconnected id =>
      refine .of_eq ?_
      change [] = manager.point.relaying peerId
      rw [select]
      rfl
    | sendMessage id message => exact .of_eq (relaying_sendTo select id (answers id message rfl)).symm
    | message origin message =>
      cases message with
      | ping => exact .of_eq (relaying_sendTo select origin rfl).symm
      | transactions txs =>
        refine .of_eq ?_
        by_cases own : origin = peerId <;> simp [NodeAction.heard, NodeAction.spreads, handleEvent, handleMessage,
          ManagerPoint.relaying, own]
      | newBlock | getAccountState | getChainHead => exact .of_eq rfl
      | status | pong | getBlockHeaders | newBlockHashes | blockHeaders | disconnect | accountState | chainHead =>
        refine .of_eq ?_
        change [] = manager.point.relaying peerId
        rw [select]
        rfl
  | exhausted waits | ticked waits | shutdown waits | forwarded waits =>
    rw [waits]
    exact .of_eq rfl
  | @sent id sender message isOk waits =>
    cases senders id sender (.inr (.inl ⟨message, waits⟩))
    rw [waits]
    cases isOk with
    | true =>
      refine .of_eq ?_
      by_cases same : id = peerId <;> simp [NodeAction.heard, NodeAction.spreads, ManagerPoint.relaying, same]
    | false =>
      refine ⟨List.nil_sublist _, fun kept => ?_⟩
      have other : id ≠ peerId := fun same => kept.2 message (same ▸ rfl)
      simp [NodeAction.heard, NodeAction.spreads, ManagerPoint.relaying, other]
  | iterated waits enumerates =>
    rw [waits, relaying_advance]
    obtain ⟨sub, same⟩ := relaying_order enumerates _ peerId
    exact ⟨sub.trans (List.sublist_append_left _ _), fun kept => (List.append_nil _).trans (same kept.1)⟩
  | @broadcast broadcast id sender rest stalePeers isOk waits =>
    have own : sender = ⟨id⟩ := senders id sender (.inr (.inr ⟨_, _, _, waits, List.mem_cons_self⟩))
    subst own
    rw [waits, relaying_advance]
    have next : broadcast.relaying peerId ((id, ⟨id⟩) :: rest) =
        (if id = peerId then broadcast.message.gossip.toList else []) ++ broadcast.relaying peerId rest := by
      cases broadcast <;> by_cases same : id = peerId <;> simp [Broadcast.relaying, Broadcast.message, Message.gossip, same]
    change Passes _ (broadcast.relaying peerId _ ++ _) _
    rw [next]
    cases isOk with
    | true =>
      refine .of_eq ?_
      by_cases same : id = peerId <;> simp [NodeAction.heard, NodeAction.spreads, same]
    | false =>
      refine ⟨?_, fun kept => ?_⟩
      · exact (List.sublist_append_right _ _).trans (List.sublist_append_left _ _)
      · have other : id ≠ peerId := fun same => kept.2 broadcast.message (same ▸ rfl)
        simp [NodeAction.heard, NodeAction.spreads, other]

end Manager

end Manager

section Connection
variable {chainId : U64} {node next : Node} {action : NodeAction}

/-- What a connection writes it has at hand, and it drops it only when it leaves. -/
theorem ConnectionPoint.Steps.shows {context : ConnectionContext} {point next : ConnectionPoint}
    {action : ConnectionAction} (steps : ConnectionPoint.Steps context point action next)
    (noTook : ∀ rx, action ≠ .took rx) (peerId : PeerId) :
    Passes next.InSession (point.writing.toList.filterMap Message.gossip)
      ((NodeAction.shows peerId (.connection peerId action)).toList ++
        next.writing.toList.filterMap Message.gossip) := by
  cases steps with
  | @message state message =>
    have silent : (handleMessage context state message).writing = none := by
      unfold handleMessage
      split
      · split <;> rfl
      all_goals rfl
    refine .of_eq ?_
    rw [silent]
    rfl
  | outbound => exact (noTook _ rfl).elim
  | @replied snapshot isOk | @registered isOk | @forwarded message isOk | @refused chainId isOk =>
    refine .of_eq ?_
    cases isOk <;> simp [NodeAction.shows, ConnectionPoint.writing, statusReply, refusal, Message.gossip]
  | @written message isOk =>
    cases isOk with
    | true =>
      refine .of_eq ?_
      cases told : message.gossip <;> simp [NodeAction.shows, ConnectionPoint.writing, told]
    | false => exact ⟨List.nil_sublist _, fun session => by cases session⟩
  | codecError | closed | unwound | readHead | left => exact .of_eq rfl

theorem Node.Steps.shows (steps : node.Steps chainId action next) (numbered : node.Numbered) (peerId : PeerId) :
    Passes (next.pointOf peerId).InSession
      ((node.outboundOf peerId).filterMap Message.gossip ++ (action.spreads peerId).toList)
      ((action.shows peerId).toList ++ (next.outboundOf peerId).filterMap Message.gossip) := by
  have connection := steps.connection numbered peerId
  unfold Node.pointOf Node.outboundOf
  generalize node.connections.lookup peerId = here, next.connections.lookup peerId = there at connection ⊢
  cases connection with
  | accepted => exact .of_eq rfl
  | @moved own connection point noTook moved =>
    have shown := moved.shows noTook peerId
    simp only [Option.map_some, Option.getD_some, List.filterMap_append, NodeAction.spreads, Option.toList_none,
      List.append_nil]
    exact ⟨List.append_assoc _ _ _ ▸ shown.sub.append_right _, fun session => by rw [shown.same session, List.append_assoc]⟩
  | @took message connection point rest moved taken =>
    obtain ⟨here, outbound⟩ := connection
    change outbound.items = _ at taken
    cases moved with
    | @outbound state =>
      cases state with
      | awaitingStatus =>
        -- a message that comes before the handshake is over is dropped
        refine ⟨?_, fun session => by cases session⟩
        simp only [Option.map_some, Option.getD_some, taken, NodeAction.shows, NodeAction.spreads, Option.toList_none,
          List.nil_append, List.append_nil]
        exact (List.sublist_cons_self message rest.items).filterMap _
      | established =>
        refine .of_eq ?_
        simp [taken, ConnectionPoint.writing, ConnectionPoint.handleOutbound, NodeAction.spreads, NodeAction.shows]
  | @enqueued message connection outbound sent =>
    refine .of_eq ?_
    cases told : message.gossip <;> simp [sent, NodeAction.spreads, NodeAction.shows, told]
  | apart noConnection noMessage =>
    rw [NodeAction.shows_of_apart noConnection, NodeAction.spreads_of_apart noMessage]
    exact .of_eq (List.append_nil _)

end Connection

namespace Node
variable {host : Host} {chainId : U64} {processor : BlockProcessor} {node next : Node} {action : NodeAction}
  {actions : List NodeAction} {peerId : PeerId}

/-- The transactions on their way from the manager to the stream of a peer, the oldest first. -/
def gossipInside (node : Node) (peerId : PeerId) : List (List Transaction) :=
  (node.outboundOf peerId).filterMap Message.gossip ++ node.manager.point.relaying peerId

/-- A step of the node moves transactions by at most one place. None are lost on the way to a peer that the manager
knows and that is in its session. -/
theorem step_gossip (ran : runs (step host chainId) (start processor) actions = some node)
    (stepped : node.step host chainId action = some next) (peerId : PeerId) :
    Passes (((node.manager.peerMap.lookup peerId).isSome ∧ node.pointOf peerId ≠ .ended) ∧
        (next.pointOf peerId).InSession)
      (node.gossipInside peerId ++ ((action.heard peerId).map Prod.snd).toList)
      ((action.shows peerId).toList ++ next.gossipInside peerId) := by
  have steps := step_steps stepped
  refine Passes.chain ?_ (steps.shows (runs_numbered ran) peerId)
  by_cases own : ∃ part, action = .manager part
  · obtain ⟨part, rfl⟩ := own
    have senders (id : PeerId) (sender : PeerSender) (holds : node.manager.Holds id sender) : sender = ⟨id⟩ :=
      ((runs_sourced ran).senders id sender holds).1
    have answers (id : PeerId) (message : Message) (same : part = .received (some (.sendMessage id message))) :
        message.gossip = none := by
      subst same
      exact Message.gossip_of_isAnswer ((runs_solicited ran).events id message steps.received_mem).2
    have moved := steps.manager_own.relaying senders answers peerId
    refine ⟨moved.sub, fun kept => moved.same ⟨kept.1, ?_⟩⟩
    rintro message rfl
    exact kept.2 steps.unqueued_ended
  · have silent : action.heard peerId = none ∧ action.spreads peerId = none := by
      cases action <;> first | exact ⟨rfl, rfl⟩ | exact (own ⟨_, rfl⟩).elim
    have same : next.manager = node.manager := by
      rcases steps.manager with same | ⟨part, same, _⟩
      · exact same
      · exact (own ⟨part, same⟩).elim
    rw [silent.1, silent.2, same]
    exact .of_eq (List.append_nil _)

theorem runs_gossip (ran : runs (step host chainId) (start processor) actions = some node) (peerId : PeerId) :
    gossipWritten peerId actions ++ node.gossipInside peerId <+ (gossipHeard peerId actions).map Prod.snd := by
  have flow := runs_lossy (fun node => node.gossipInside peerId)
    (fun _ _ _ _ first stepped => (step_gossip first stepped peerId).sub) ran
  rw [gossipWritten_eq, gossipHeard, List.map_filterMap]
  exact flow

/-- Of a peer that has announced itself, a session that goes on has gone on before. -/
theorem session_before (ran : runs (step host chainId) (start processor) actions = some node)
    (stepped : node.step host chainId action = some next) (announced : Announced actions peerId)
    (session : (next.pointOf peerId).InSession) : (node.pointOf peerId).InSession := by
  by_contra outside
  obtain ⟨_, _, waits, _⟩ := (step_steps stepped).enters (runs_numbered ran) outside session
  exact register_unannounced ran waits announced

end Node

section Origin
variable {host : Host} {chainId : U64} {processor : BlockProcessor} {actions : List NodeAction} {node : Node}

theorem origin_of_heard {peerId : PeerId} {entry : PeerId × List Transaction}
    (member : entry ∈ gossipHeard peerId actions) : entry.1 ≠ peerId := by
  obtain ⟨action, _, heard⟩ := List.mem_filterMap.mp member
  unfold NodeAction.heard at heard
  split at heard
  · split at heard
    · cases heard
    · rename_i other
      cases heard
      exact other
  · cases heard

def PeerEvent.gossip : PeerEvent → Option (List Transaction)
  | .message _ spoken => spoken.gossip
  | .connected .. | .disconnected _ | .sendMessage .. => none

/-- The transactions of one origin that the manager has got for a peer. -/
theorem gossipHeard_origin {peerId origin : PeerId} (other : origin ≠ peerId) (actions : List NodeAction) :
    ((gossipHeard peerId actions).filter fun entry => entry.1 = origin).map Prod.snd =
      (actions.filterMap (NodeAction.hears origin)).filterMap PeerEvent.gossip := by
  unfold gossipHeard
  rw [← List.filterMap_eq_filter, List.filterMap_filterMap, List.map_filterMap, List.filterMap_filterMap]
  refine List.filterMap_congr fun action _ => ?_
  match action with
  | .manager (.received (some (.message source message))) =>
    by_cases here : source = origin
    · subst here
      cases message <;> simp [NodeAction.heard, NodeAction.hears, PeerEvent.source, PeerEvent.gossip, Message.gossip, other]
    · have silent : NodeAction.hears origin (.manager (.received (some (.message source message)))) = none := by
        simp [NodeAction.hears, PeerEvent.source, here]
      rw [silent]
      cases message <;> simp [NodeAction.heard, here]
  | .manager (.received (some (.connected id _))) | .manager (.received (some (.disconnected id))) =>
    by_cases here : id = origin <;> simp [NodeAction.heard, NodeAction.hears, PeerEvent.source, PeerEvent.gossip, here]
  | .manager (.received (some (.sendMessage ..))) | .manager (.received none) | .manager .ticked | .manager .shutdown
  | .manager (.iterated _) | .manager (.enqueued ..) | .manager (.forwarded ..) | .connection .. | .accepted
  | .adapter _ | .processed | .signalled | .unlistened | .finished _ => rfl

/-- The manager gets the transactions of an origin in the order in which it has sent them. -/
theorem prefix_gossipHeard (ran : runs (Node.step host chainId) (Node.start processor) actions = some node)
    (peerId origin : PeerId) :
    ((gossipHeard peerId actions).filter fun entry => entry.1 = origin).map Prod.snd <+:
      (receivedMessages (actionsOf origin actions)).filterMap Message.gossip := by
  by_cases other : origin ≠ peerId
  · rw [gossipHeard_origin other]
    refine ((Node.runs_heard ran origin).filterMap _).trans ?_
    have passed : (emittedEvents (actionsOf origin actions)).filterMap PeerEvent.gossip =
        (passedMessages (actionsOf origin actions)).filterMap Message.gossip := by
      unfold emittedEvents passedMessages
      rw [List.filterMap_filterMap, List.filterMap_filterMap]
      refine List.filterMap_congr fun action _ => ?_
      match action with
      | .emitted event true | .emitted event false => cases event <;> rfl
      | .received _ | .unwound | .took _ | .readHead _ | .wrote .. => rfl
    rw [passed]
    exact (runs_passing (Node.runs_connection ran origin)).filterMap fun _ => Message.gossip_of_isStatus
  · have none : ((gossipHeard peerId actions).filter fun entry => entry.1 = origin) = [] :=
      List.filter_eq_nil_iff.mpr fun entry member same =>
        origin_of_heard member ((of_decide_eq_true same).trans (not_not.mp other))
    rw [none]
    exact List.nil_prefix

end Origin

section Order
variable {host : Host} {chainId : U64} {processor : BlockProcessor} {actions before after : List NodeAction} {node : Node}

/-- The node does not make transactions up and does not send them back: those that are written to a peer were received
from the others, each at most once, and those of one origin in the order in which it has sent them. -/
theorem gossip_in_order (ran : runs (Node.step host chainId) (Node.start processor) actions = some node)
    (peerId : PeerId) : ∃ relayed : List (PeerId × List Transaction),
    (framesTo peerId actions).filterMap Message.gossip = relayed.map Prod.snd ∧
      (∀ entry ∈ relayed, entry.1 ≠ peerId) ∧
      ∀ origin, (relayed.filter fun entry => entry.1 = origin).map Prod.snd <+
        (receivedMessages (actionsOf origin actions)).filterMap Message.gossip := by
  have written : gossipWritten peerId actions <+ (gossipHeard peerId actions).map Prod.snd :=
    (List.sublist_append_left _ _).trans (Node.runs_gossip ran peerId)
  obtain ⟨relayed, sub, same⟩ := List.sublist_map_iff.mp written
  refine ⟨relayed, same, fun entry member => origin_of_heard (sub.subset member), fun origin => ?_⟩
  exact ((sub.filter _).map _).trans (prefix_gossipHeard ran peerId origin).sublist

/-- What a second peer sends in two messages is written to the first one. -/
theorem gossip_in_order_relay :
    let first := [sampleTransfer.transaction]
    let second := [plainTransfer]
    let actions := sampleJoin ++ sampleJoinOf ⟨2⟩ ++ relayPeer first ++ relayPeer second
    ∃ node, ∃ relayed : List (PeerId × List Transaction),
      runs (Node.step sampleHost 1) sampleNode actions = some node ∧
      relayed.map Prod.snd = [first, second] ∧ (∀ entry ∈ relayed, entry.1 ≠ samplePeer) ∧
      (relayed.filter fun entry => entry.1 = ⟨2⟩).map Prod.snd <+ [first, second] := by
  intro first second actions
  have possible : (runs (Node.step sampleHost 1) sampleNode actions).isSome = true := by decide +kernel
  obtain ⟨node, ran⟩ := Option.isSome_iff_exists.mp possible
  obtain ⟨relayed, same, others, ordered⟩ := gossip_in_order ran samplePeer
  have written : (framesTo samplePeer actions).filterMap Message.gossip = [first, second] := by decide +kernel
  have received : (receivedMessages (actionsOf ⟨2⟩ actions)).filterMap Message.gossip = [first, second] := by
    decide +kernel
  exact ⟨node, relayed, ran, same.symm.trans written, others, received ▸ ordered ⟨2⟩⟩

/-- Between two moments of a run no transactions for a peer are lost, if the manager has heard of the peer at the first
one and the session goes on at the second: what was inside and what came in is written or inside. -/
theorem gossip_kept {peerId : PeerId}
    (ran : runs (Node.step host chainId) (Node.start processor) (before ++ after) = some node)
    (known : NodeAction.manager (.received (some (.connected peerId ⟨peerId⟩))) ∈ before)
    (session : (node.pointOf peerId).InSession) (running : node.manager.point ≠ .ended) : ∃ between,
    runs (Node.step host chainId) (Node.start processor) before = some between ∧
      between.gossipInside peerId ++ (gossipHeard peerId after).map Prod.snd =
        (framesTo peerId after).filterMap Message.gossip ++ node.gossipInside peerId := by
  induction after using List.reverseRec generalizing node with
  | nil =>
    rw [List.append_nil] at ran
    exact ⟨node, ran, List.append_nil _⟩
  | append_singleton after action ih =>
    rw [← List.append_assoc] at ran
    obtain ⟨here, first, last⟩ := runs_append_eq_some.mp ran
    rw [runs_singleton] at last
    have known' := List.mem_append_left after known
    have sessionBefore := Node.session_before first last (Node.announced_of_heard first known') session
    have runningBefore : here.manager.point ≠ .ended := fun ended =>
      running ((Node.step_steps last).manager_ended ended)
    obtain ⟨between, ran', flow⟩ := ih first sessionBefore runningBefore
    have alive : here.pointOf peerId ≠ .ended := by
      intro ended
      rw [ended] at sessionBefore
      exact sessionBefore
    have listed := (Node.runs_enlisted first).listed peerId known' alive runningBefore
    have kept := (Node.step_gossip first last peerId).same ⟨⟨by rw [listed]; rfl, alive⟩, session⟩
    refine ⟨between, ran', ?_⟩
    change _ = gossipWritten peerId _ ++ _
    change _ = gossipWritten peerId _ ++ _ at flow
    have single : (action.heard peerId).toList.map Prod.snd = ((action.heard peerId).map Prod.snd).toList := by
      cases action.heard peerId <;> rfl
    rw [gossipWritten_eq, gossipHeard] at flow ⊢
    rw [filterMap_concat, filterMap_concat, List.map_append, single, ← List.append_assoc, flow, List.append_assoc, kept,
      List.append_assoc]

/-- The transactions of a second peer wait in the channel of the first one. -/
theorem gossip_kept_waiting : ∃ between node,
    runs (Node.step sampleHost 1) sampleNode (sampleJoin ++ sampleJoinOf ⟨2⟩) = some between ∧
    runs (Node.step sampleHost 1) sampleNode ((sampleJoin ++ sampleJoinOf ⟨2⟩) ++ (relayPeer [plainTransfer]).take 5) = some node ∧
    node.gossipInside samplePeer = between.gossipInside samplePeer ++ [[plainTransfer]] := by
  have possible : ((runs (Node.step sampleHost 1) sampleNode ((sampleJoin ++ sampleJoinOf ⟨2⟩) ++ (relayPeer [plainTransfer]).take 5)).map
      fun node => (node.pointOf samplePeer, node.manager.point)) = some (.select .established, .select) := by
    decide +kernel
  obtain ⟨node, ran, waits⟩ := Option.map_eq_some_iff.mp possible
  obtain ⟨session, running⟩ := Prod.mk.inj waits
  have known : NodeAction.manager (.received (some (.connected samplePeer ⟨samplePeer⟩))) ∈
      sampleJoin ++ sampleJoinOf ⟨2⟩ := by
    simp [sampleJoin, sampleJoinOf]
  obtain ⟨between, first, kept⟩ := gossip_kept ran known (by rw [session]; trivial) (by rw [running]; simp)
  exact ⟨between, node, first, ran, kept.symm⟩

end Order

end MiniEthNode
