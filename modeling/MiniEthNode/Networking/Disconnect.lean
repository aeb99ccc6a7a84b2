import MiniEthNode.Networking.Registration

namespace MiniEthNode
open Rust

def Message.isDisconnect : Message → Bool
  | .disconnect _ => true
  | _ => false

theorem Message.isDisconnect_iff {message : Message} :
    message.isDisconnect = true ↔ ∃ reason, message = .disconnect reason := by
  cases message <;> simp [Message.isDisconnect]

namespace Manager
variable {manager next : Manager} {action : ManagerAction} {sender : PeerSender}

/-- The loop of a shutdown is past the peer, so that nothing more is sent to it. -/
def Dismissed (manager : Manager) (sender : PeerSender) : Prop :=
  manager.point = .ended ∨ ∃ rest stalePeers, manager.point = .broadcast .shutdown rest stalePeers ∧
    ∀ entry ∈ rest, entry.2 ≠ sender

theorem dismissed_advance {peerMap : HashMap PeerId PeerSender} {rest : List (PeerId × PeerSender)}
    {stalePeers : List PeerId} (past : ∀ entry ∈ rest, entry.2 ≠ sender) :
    (advance peerMap .shutdown rest stalePeers).Dismissed sender := by
  rcases advance_cases peerMap .shutdown rest stalePeers with waits | ⟨_, ended⟩ | ⟨other, _⟩
  · exact .inr ⟨rest, stalePeers, waits, past⟩
  · rw [ended]
    exact .inl rfl
  · exact (other rfl).elim

/-- A dismissed peer stays so and gets no message, and the manager takes no event. -/
theorem Steps.dismissed (steps : manager.Steps action next) (dismissed : manager.Dismissed sender) :
    next.Dismissed sender ∧ (∀ message isOk, action ≠ .enqueued sender message isOk) ∧
      ∀ event, action ≠ .received event := by
  rcases dismissed with ended | ⟨rest, stalePeers, waits, past⟩
  · cases steps with
    | received select | exhausted select | ticked select | shutdown select => cases ended.symm.trans select
    | sent waits | forwarded waits | iterated waits | broadcast waits => cases ended.symm.trans waits
  · cases steps with
    | received select | exhausted select | ticked select | shutdown select => cases waits.symm.trans select
    | sent waits' | forwarded waits' | iterated waits' => cases waits.symm.trans waits'
    | broadcast waits' =>
      cases waits.symm.trans waits'
      refine ⟨dismissed_advance fun entry member => past entry (List.mem_cons_of_mem _ member), ?_, by simp⟩
      intro message isOk same
      cases same
      exact past _ List.mem_cons_self rfl

/-- What holds at each point of the manager of a node. -/
structure Orderly (manager : Manager) : Prop where
  /-- Only a shutdown sends a `Disconnect`. -/
  send : ∀ peerId sender message, manager.point = .send peerId sender message → message.isDisconnect = false
  /-- A loop visits no peer twice. -/
  distinct : ∀ broadcast rest stalePeers, manager.point = .broadcast broadcast rest stalePeers →
    (rest.map Prod.fst).Nodup
  cleared : manager.point = .ended → manager.peerMap = ∅

theorem orderly_advance (peerMap : HashMap PeerId PeerSender) (broadcast : Broadcast)
    {rest : List (PeerId × PeerSender)} (distinct : (rest.map Prod.fst).Nodup) (stalePeers : List PeerId) :
    (advance peerMap broadcast rest stalePeers).Orderly := by
  rcases advance_cases peerMap broadcast rest stalePeers with waits | ⟨_, ended⟩ | ⟨_, select⟩
  · refine ⟨?_, ?_, ?_⟩
    · simp [waits]
    · intro broadcast' rest' stalePeers' same
      cases waits.symm.trans same
      exact distinct
    · simp [waits]
  · rw [ended]
    exact ⟨by simp, by simp, fun _ => rfl⟩
  · exact ⟨by simp [select], by simp [select], by simp [select]⟩

theorem Steps.orderly (steps : manager.Steps action next) (orderly : manager.Orderly)
    (present : action ≠ .received none)
    (polite : ∀ peerId message, action = .received (some (.sendMessage peerId message)) →
      message.isDisconnect = false) :
    next.Orderly := by
  cases steps with
  | @received event select =>
    rcases handleEvent_cases select event with
      same | ⟨peerId, sender, message, waits, source⟩ | ⟨_, waits⟩ | ⟨_, waits, _⟩
    · exact ⟨by simp [same], by simp [same], by simp [same]⟩
    · refine ⟨?_, by simp [waits], by simp [waits]⟩
      intro peerId' sender' message' same
      cases waits.symm.trans same
      rcases source with rfl | rfl
      · rfl
      · exact polite _ _ rfl
    · exact ⟨by simp [waits], by simp [waits], by simp [waits]⟩
    · exact ⟨by simp [waits], by simp [waits], by simp [waits]⟩
  | exhausted => exact (present rfl).elim
  | ticked | shutdown | sent | forwarded => exact ⟨by simp, by simp, by simp⟩
  | iterated waits enumerates =>
    exact orderly_advance _ _ (enumerates.1.sublist (List.filter_sublist.map _)) _
  | broadcast waits =>
    have distinct := orderly.distinct _ _ _ waits
    exact orderly_advance _ _ (List.nodup_cons.mp distinct).2 _

/-- With its `Disconnect` a peer is dismissed. -/
theorem Steps.dismisses {reason : String} {isOk : Bool} (orderly : manager.Orderly)
    (own : ∀ id sender, manager.Holds id sender → sender = ⟨id⟩)
    (steps : manager.Steps (.enqueued sender (.disconnect reason) isOk) next) : next.Dismissed sender := by
  generalize sent : Message.disconnect reason = message at steps
  cases steps with
  | sent waits =>
    have polite := orderly.send _ _ _ waits
    rw [← sent] at polite
    cases polite
  | @broadcast broadcast id _ rest stalePeers _ waits =>
    cases broadcast with
    | relay txs origin => cases sent
    | ping => cases sent
    | shutdown =>
      refine dismissed_advance ?_
      rintro ⟨other, _⟩ member rfl
      have same := own id _ (.inr (.inr ⟨_, _, _, waits, List.mem_cons_self⟩))
      have same' := own other _ (.inr (.inr ⟨_, _, _, waits, List.mem_cons_of_mem _ member⟩))
      obtain rfl : id = other := PeerSender.mk.inj (same.symm.trans same')
      exact (List.nodup_cons.mp (orderly.distinct _ _ _ waits)).1 (List.mem_map_of_mem member)

end Manager

theorem AdapterPoint.step_reply {point : AdapterPoint} {action : AdapterAction} {peerId : PeerId} {message : Message}
    (stepped : point.step action = some (.reply peerId message)) : message.isDisconnect = false := by
  cases AdapterPoint.step_steps stepped with
  | answered | readHead => rfl

namespace ConnectionPoint
variable {context : ConnectionContext} {point next : ConnectionPoint} {action : ConnectionAction}

/-- A connection in its session that has no message of the manager at hand. -/
def Mute : ConnectionPoint → Prop
  | .select .established | .forward _ | .leave | .ended => True
  | _ => False

theorem mute_handleMessage (message : Message) : (handleMessage context .established message).Mute := by
  unfold handleMessage
  split <;> trivial

theorem Steps.mute (steps : Steps context point action next) (mute : point.Mute) (noTook : ∀ rx, action ≠ .took rx) :
    next.Mute ∧ ∀ frame isOk, action ≠ .wrote frame isOk := by
  cases steps with
  | @message state message =>
    cases state with
    | awaitingStatus => exact mute.elim
    | established => exact ⟨mute_handleMessage message, by simp⟩
  | codecError | closed | unwound | left => exact ⟨trivial, by simp⟩
  | outbound => exact (noTook _ rfl).elim
  | @forwarded message isOk =>
    refine ⟨?_, by simp⟩
    cases isOk <;> trivial
  | refused | readHead | replied | registered | written => exact mute.elim

/-- A connection writes only what it has taken. -/
theorem Steps.write {message : Message} (steps : Steps context point action next) (waits : next = .write message) :
    action = .took (some message) := by
  have notHandled {state : HandshakeState} {received : Message} :
      handleMessage context state received ≠ .write message := by
    unfold handleMessage
    split
    · split <;> simp
    all_goals simp
  cases steps with
  | message => exact (notHandled waits).elim
  | @outbound state rx =>
    unfold handleOutbound at waits
    split at waits
    · cases waits
      rfl
    · cases waits
    · split at waits <;> cases waits
  | @replied _ isOk | @registered isOk | @forwarded _ isOk | @written _ isOk => cases isOk <;> cases waits
  | codecError | closed | unwound | refused | readHead | left => cases waits

/-- A connection that leaves its loop only tells the manager. -/
theorem runs_leave {actions : List ConnectionAction} (ran : runs (step context) .leave actions = some point) :
    ∀ action ∈ actions, ∃ isOk, action = .emitted (.disconnected context.peerId) isOk := by
  cases actions with
  | nil => simp
  | cons first rest =>
    obtain ⟨here, stepped, later⟩ := runs_cons_eq_some.mp ran
    cases step_eq_some.mp stepped with
    | left =>
      cases rest with
      | nil => exact fun action member => ⟨_, List.mem_singleton.mp member⟩
      | cons second rest =>
        obtain ⟨there, stepped, _⟩ := runs_cons_eq_some.mp later
        cases step_eq_some.mp stepped

end ConnectionPoint

/-- A `Disconnect` comes from the peer, or is written to it. -/
def ConnectionAction.IsDisconnect : ConnectionAction → Prop
  | .received (some (.ok message)) => message.isDisconnect = true
  | .wrote frame _ => frame.isDisconnect = true
  | _ => False

/-- The `Disconnect` for a connection is the last message for it. -/
structure Farewell (manager : Manager) (peerId : PeerId) (connection : Connection) : Prop where
  queued : ∀ before reason after, connection.outbound.items = before ++ .disconnect reason :: after →
    after = [] ∧ manager.Dismissed ⟨peerId⟩
  written : ∀ reason, connection.point = .write (.disconnect reason) →
    connection.outbound.items = [] ∧ manager.Dismissed ⟨peerId⟩

namespace Node
variable {chainId : U64} {node next : Node} {action : NodeAction} {peerId : PeerId}

/-- Only the loop of a shutdown has a `Disconnect` for a peer. -/
structure Orderly (node : Node) : Prop where
  replies : ∀ peerId message, node.adapter = .reply peerId message → message.isDisconnect = false
  events : ∀ peerId message, .sendMessage peerId message ∈ node.events.items → message.isDisconnect = false
  manager : node.manager.Orderly
  farewell : ∀ peerId connection, node.connections.lookup peerId = some connection →
    Farewell node.manager peerId connection

theorem Steps.adapter (steps : node.Steps chainId action next) :
    next.adapter = node.adapter ∨ ∃ own, node.adapter.step own = some next.adapter := by
  cases steps with
  | replied moved => exact .inr ⟨_, moved⟩
  | aside _ _ _ _ _ _ others _ moved =>
    by_cases own : ∃ part, action = .adapter part
    · obtain ⟨part, same⟩ := own
      exact .inr ⟨part, moved part same⟩
    · exact .inl (others (not_exists.mp own)).1
  | accepted | outside | took | emitted | unemitted | received | ticked | iterated | shutdown | enqueued | unqueued
  | forwarded | unforwarded => exact .inl rfl

theorem Steps.dismissed (steps : node.Steps chainId action next) {sender : PeerSender}
    (dismissed : node.manager.Dismissed sender) :
    next.manager.Dismissed sender ∧ (∀ message isOk, action ≠ .manager (.enqueued sender message isOk)) ∧
      ∀ event, action ≠ .manager (.received event) := by
  by_cases own : ∃ part, action = .manager part
  · obtain ⟨part, rfl⟩ := own
    obtain ⟨kept, noMessage, noEvent⟩ := steps.manager_own.dismissed dismissed
    exact ⟨kept, by simpa using noMessage, by simpa using noEvent⟩
  · rcases steps.manager with same | ⟨part, rfl, _⟩
    · rw [same]
      exact ⟨dismissed, fun _ _ here => own ⟨_, here⟩, fun _ here => own ⟨_, here⟩⟩
    · exact (own ⟨part, rfl⟩).elim

theorem Orderly.farewell_step (orderly : node.Orderly) (numbered : node.Numbered)
    (own : ∀ id sender, node.manager.Holds id sender → sender = ⟨id⟩) (steps : node.Steps chainId action next)
    {connection : Connection} (found : next.connections.lookup peerId = some connection) :
    Farewell next.manager peerId connection := by
  have kept (dismissed : node.manager.Dismissed ⟨peerId⟩) : next.manager.Dismissed ⟨peerId⟩ :=
    (steps.dismissed dismissed).1
  have moved := steps.connection numbered peerId
  rw [found] at moved
  cases known : node.connections.lookup peerId with
  | none =>
    rw [known] at moved
    cases moved with
    | accepted => exact ⟨by simp [Channel.empty], by simp [ConnectionPoint.start]⟩
  | some before =>
    have farewell := orderly.farewell peerId before known
    rw [known] at moved
    cases moved with
    | moved noTook moved =>
      refine ⟨fun first reason last same => (farewell.queued first reason last same).imp_right kept, ?_⟩
      intro reason waits
      exact (noTook _ (moved.write waits)).elim
    | @took message _ point rest moved taken =>
      constructor
      · intro first reason last same
        refine (farewell.queued (message :: first) reason last ?_).imp_right kept
        rw [taken, same, List.cons_append]
      · intro reason waits
        cases moved.write waits
        exact (farewell.queued [] reason rest.items taken).imp_right kept
    | @enqueued message _ outbound sent =>
      -- a dismissed peer gets no message, so no `Disconnect` is in the channel or at hand yet
      have waiting : ¬ node.manager.Dismissed ⟨peerId⟩ := fun dismissed => (steps.dismissed dismissed).2.1 _ _ rfl
      constructor
      · intro first reason last same
        rw [sent] at same
        rcases List.eq_nil_or_concat last with rfl | ⟨last, final, rfl⟩
        · obtain ⟨_, same⟩ := List.append_inj' same rfl
          cases same
          exact ⟨rfl, steps.manager_own.dismisses orderly.manager own⟩
        · rw [List.concat_eq_append, ← List.cons_append, ← List.append_assoc] at same
          obtain ⟨earlier, _⟩ := List.append_inj' same rfl
          exact (waiting (farewell.queued first reason last earlier).2).elim
      · exact fun reason waits => (waiting (farewell.written reason waits).2).elim
    | apart =>
      exact ⟨fun first reason last same => (farewell.queued first reason last same).imp_right kept,
        fun reason waits => (farewell.written reason waits).imp_right kept⟩

theorem Orderly.step (orderly : node.Orderly) (numbered : node.Numbered)
    (own : ∀ id sender, node.manager.Holds id sender → sender = ⟨id⟩) (steps : node.Steps chainId action next) :
    next.Orderly := by
  refine ⟨?_, ?_, ?_, fun peerId connection found => orderly.farewell_step numbered own steps found⟩
  · intro peerId message waits
    rcases steps.adapter with same | ⟨part, moved⟩
    · exact orderly.replies peerId message (same ▸ waits)
    · rw [waits] at moved
      exact AdapterPoint.step_reply moved
  · intro peerId message member
    rcases steps.event_mem member with earlier | ⟨_, _, same | same | ⟨_, same⟩⟩ | ⟨other, message', same, waits⟩
    · exact orderly.events peerId message earlier
    · cases same
    · cases same
    · cases same
    · cases same
      exact orderly.replies peerId message waits
  · rcases steps.manager with same | ⟨part, rfl, moved, taken⟩
    · rw [same]
      exact orderly.manager
    · refine moved.orderly orderly.manager ?_ ?_
      · rintro rfl
        cases steps with
        | aside _ noManager => exact noManager _ rfl
      · rintro peerId message rfl
        exact orderly.events peerId message (taken _ rfl)

theorem runs_orderly {host : Host} {processor : BlockProcessor} {actions : List NodeAction}
    (ran : runs (Node.step host chainId) (Node.start processor) actions = some node) : node.Orderly := by
  refine runs_history (P := fun _ here => Orderly here) ?_ ?_ ran
  · refine ⟨?_, ?_, ⟨?_, ?_, ?_⟩, ?_⟩
    · intro peerId message waits
      cases waits
    · intro peerId message member
      cases member
    · intro peerId sender message waits
      cases waits
    · intro broadcast rest stalePeers waits
      cases waits
    · intro waits
      cases waits
    · intro peerId connection found
      cases found
  · intro actions action here next first orderly stepped
    exact orderly.step (runs_numbered first) (fun id sender holds => ((runs_sourced first).senders id sender holds).1)
      (step_steps stepped)

/-- Nothing is left to be written to a peer, and nothing comes. -/
def Parted (node : Node) (peerId : PeerId) : Prop :=
  node.manager.Dismissed ⟨peerId⟩ ∧ ∃ connection, node.connections.lookup peerId = some connection ∧
    connection.outbound.items = [] ∧ connection.point.Mute

theorem Parted.step (parted : node.Parted peerId) (numbered : node.Numbered) (steps : node.Steps chainId action next) :
    next.Parted peerId ∧ (∀ frame isOk, action ≠ .connection peerId (.wrote frame isOk)) ∧
      ∀ event, action ≠ .manager (.received event) := by
  obtain ⟨dismissed, connection, known, empty, mute⟩ := parted
  obtain ⟨kept, noMessage, noEvent⟩ := steps.dismissed dismissed
  have moved := steps.connection numbered peerId
  rw [known] at moved
  generalize found : next.connections.lookup peerId = after at moved
  cases moved with
  | moved noTook moved =>
    obtain ⟨mute', noFrame⟩ := moved.mute mute noTook
    exact ⟨⟨kept, _, found, empty, mute'⟩, by simpa using noFrame, noEvent⟩
  | took _ taken => cases empty.symm.trans taken
  | enqueued => exact (noMessage _ _ rfl).elim
  | apart noConnection => exact ⟨⟨kept, _, found, empty, mute⟩, fun _ _ => noConnection _, noEvent⟩

theorem Parted.runs {host : Host} {actions : List NodeAction} (parted : node.Parted peerId) (numbered : node.Numbered)
    (ran : runs (Node.step host chainId) node actions = some next) :
    (∀ frame isOk, .connection peerId (.wrote frame isOk) ∉ actions) ∧
      ∀ event, .manager (.received event) ∉ actions := by
  induction actions generalizing node with
  | nil => simp
  | cons action rest ih =>
    obtain ⟨here, stepped, later⟩ := runs_cons_eq_some.mp ran
    have steps := step_steps stepped
    obtain ⟨parted', noFrame, noEvent⟩ := parted.step numbered steps
    obtain ⟨noFrames, noEvents⟩ := ih parted' (steps.numbered numbered) later
    refine ⟨fun frame isOk member => ?_, fun event member => ?_⟩
    · rcases List.mem_cons.mp member with same | member
      · exact noFrame frame isOk same.symm
      · exact noFrames frame isOk member
    · rcases List.mem_cons.mp member with same | member
      · exact noEvent event same.symm
      · exact noEvents event member

end Node

section Runs
variable {host : Host} {chainId : U64} {processor : BlockProcessor} {before after : List NodeAction} {node : Node}
  {peerId : PeerId} {action : ConnectionAction}

theorem actionsOf_split : actionsOf peerId (before ++ .connection peerId action :: after) =
    actionsOf peerId before ++ action :: actionsOf peerId after := by
  unfold actionsOf
  rw [List.filterMap_append]
  congr 1
  exact List.filterMap_cons_some (if_pos rfl)

/-- A connection that is not registered yet leaves its loop with a `Disconnect`. -/
theorem leaves_of_disconnect {actions later : List ConnectionAction} {context : ConnectionContext}
    {point : ConnectionPoint}
    (ran : runs (ConnectionPoint.step context) .start (actions ++ action :: later) = some point)
    (disconnects : action.IsDisconnect)
    (unknown : .emitted (.connected context.peerId context.peerSender) true ∉ actions) :
    runs (ConnectionPoint.step context) .leave later = some point := by
  obtain ⟨here, next, first, stepped, ran⟩ := runs_split ran
  have progressed := runs_progressed first
  have moved := ConnectionPoint.step_eq_some.mp stepped
  cases moved with
  | @message state message =>
    cases state with
    | awaitingStatus =>
      obtain ⟨reason, rfl⟩ := Message.isDisconnect_iff.mp disconnects
      exact ran
    | established => exact (unknown (Opened.registered progressed)).elim
  | refused => exact ran
  | replied => cases disconnects
  | written => exact (unknown (Opened.registered progressed)).elim
  | codecError | closed | unwound | outbound | readHead | registered | forwarded | left => exact disconnects.elim

/-- A connection that leaves before it is registered is silent, and the manager does not know its peer. -/
theorem unregistered_of_disconnect
    (ran : runs (Node.step host chainId) (Node.start processor)
      (before ++ .connection peerId action :: after) = some node)
    (disconnects : action.IsDisconnect) (unknown : ¬ Node.Announced before peerId) :
    (∀ own, .connection peerId own ∈ after → ∃ isOk, own = .emitted (.disconnected peerId) isOk) ∧
      node.manager.peerMap.lookup peerId = none := by
  have alone := Node.runs_connection ran peerId
  rw [actionsOf_split] at alone
  have left := ConnectionPoint.runs_leave
    (leaves_of_disconnect alone disconnects fun announced => unknown (mem_actionsOf.mp announced))
  refine ⟨fun own member => left own (mem_actionsOf.mpr member), ?_⟩
  refine Option.eq_none_iff_forall_ne_some.mpr fun sender found => ?_
  -- a sender in the map came with `Connected`, for which there was no place in the run
  have announced := mem_actionsOf.mpr ((Node.runs_sourced ran).senders peerId sender (.inl found)).2
  rw [actionsOf_split, List.mem_append, List.mem_cons] at announced
  rcases announced with earlier | same | later
  · exact unknown (mem_actionsOf.mp earlier)
  · rw [← same] at disconnects
    exact disconnects
  · obtain ⟨isOk, same⟩ := left _ later
    cases same

/-- The `Disconnect` that a registered peer gets is the last frame to it, and the manager is shutting down. -/
theorem parted_of_disconnect {reason : String} {isOk : Bool}
    (ran : runs (Node.step host chainId) (Node.start processor)
      (before ++ .connection peerId (.wrote (.disconnect reason) isOk) :: after) = some node)
    (announced : Node.Announced before peerId) :
    (∀ frame isOk, .connection peerId (.wrote frame isOk) ∉ after) ∧ ∀ event, .manager (.received event) ∉ after := by
  obtain ⟨here, next, first, stepped, later⟩ := runs_split ran
  have numbered := Node.runs_numbered first
  have steps := Node.step_steps stepped
  have progressed := runs_progressed (Node.runs_connection first peerId)
  have registered := mem_emittedEvents.mpr (mem_actionsOf.mpr announced)
  have moved := steps.connection numbered peerId
  refine Node.Parted.runs ?_ (steps.numbered numbered) later
  generalize found : next.connections.lookup peerId = entry at moved
  generalize known : here.connections.lookup peerId = connection at moved
  cases moved with
  | @moved _ connection point _ moved =>
    have farewell := (Node.runs_orderly first).farewell peerId connection known
    rw [Node.pointOf, known] at progressed
    change Progressed _ _ connection.point at progressed
    generalize waits : connection.point = here at moved progressed
    generalize frame : Message.disconnect reason = message at moved
    cases moved with
    -- the refusal of a wrong chain comes before the registration
    | refused =>
      have silent : emittedEvents (actionsOf peerId before) = [] := progressed
      rw [silent] at registered
      cases registered
    | replied => cases frame
    | written =>
      obtain ⟨empty, dismissed⟩ := farewell.written reason (frame ▸ waits)
      refine ⟨(steps.dismissed dismissed).1, _, found, empty, ?_⟩
      cases isOk <;> trivial
  | apart noConnection => exact (noConnection _ rfl).elim

/-- A registered connection passes the `Disconnect` of its peer on, like any other message, and goes on. -/
theorem goes_on_after_disconnect {actions later : List ConnectionAction} {context : ConnectionContext}
    {point : ConnectionPoint} {reason : String}
    (ran : runs (ConnectionPoint.step context) .start
      (actions ++ .received (some (.ok (.disconnect reason))) :: later) = some point)
    (known : .emitted (.connected context.peerId context.peerSender) true ∈ actions) :
    later = [] ∨ ∃ isOk rest, later = .emitted (.message context.peerId (.disconnect reason)) isOk :: rest ∧
      (isOk = true → runs (ConnectionPoint.step context) (.select .established) rest = some point) := by
  obtain ⟨here, next, first, stepped, ran⟩ := runs_split ran
  have progressed := runs_progressed first
  cases ConnectionPoint.step_eq_some.mp stepped with
  | @message state =>
    cases state with
    | awaitingStatus =>
      have early : Early actions := progressed
      have registered := mem_emittedEvents.mpr known
      rw [early.emittedEvents] at registered
      cases registered
    | established =>
      change runs _ (ConnectionPoint.forward (.disconnect reason)) later = _ at ran
      cases later with
      | nil => exact .inl rfl
      | cons own rest =>
        obtain ⟨after, passed, ran⟩ := runs_cons_eq_some.mp ran
        cases ConnectionPoint.step_eq_some.mp passed with
        | @forwarded _ isOk =>
          refine .inr ⟨isOk, rest, rfl, fun accepted => ?_⟩
          rwa [if_pos accepted] at ran

/-- The manager only logs a `Disconnect`. -/
theorem manager_after_disconnect {reason : String} {here next : Node}
    (stepped : here.step host chainId (.manager (.received (some (.message peerId (.disconnect reason))))) = some next) :
    next.manager = here.manager := by
  have moved := (Node.step_steps stepped).manager_own
  generalize next.manager = after at moved
  cases moved with
  | received => rfl

/-- A `Disconnect` in the handshake ends the connection: it emits no message and writes no frame any more, and
its peer is never in the map. The `Disconnect` of a shutdown is the last frame to its peer, and comes when the
manager takes no event any more; at its end the map is empty. The `Disconnect` of a registered peer ends nothing: the
connection passes it on and goes on, and the manager stays as it is when it takes it. -/
theorem disconnect_ends_session
    (ran : runs (Node.step host chainId) (Node.start processor)
      (before ++ .connection peerId action :: after) = some node)
    (disconnects : action.IsDisconnect) :
    (¬ Node.Announced before peerId →
      (∀ other message isOk, .connection peerId (.emitted (.message other message) isOk) ∉ after) ∧
      (∀ frame isOk, .connection peerId (.wrote frame isOk) ∉ after) ∧
      node.manager.peerMap.lookup peerId = none) ∧
    (Node.Announced before peerId → (∃ frame isOk, action = .wrote frame isOk) →
      (∀ frame isOk, .connection peerId (.wrote frame isOk) ∉ after) ∧
      (∀ event, .manager (.received event) ∉ after) ∧
      (node.manager.point = .ended → node.manager.peerMap.lookup peerId = none)) ∧
    (Node.Announced before peerId → ∀ reason, action = .received (some (.ok (.disconnect reason))) →
      (actionsOf peerId after = [] ∨ ∃ isOk rest,
        actionsOf peerId after = .emitted (.message peerId (.disconnect reason)) isOk :: rest ∧
        (isOk = true → runs (ConnectionPoint.step (Node.context chainId peerId)) (.select .established) rest =
          some (node.pointOf peerId))) ∧
      ∀ first second, after = first ++ .manager (.received (some (.message peerId (.disconnect reason)))) :: second →
        ∃ here next,
          runs (Node.step host chainId) (Node.start processor) (before ++ .connection peerId action :: first) =
            some here ∧
          here.step host chainId (.manager (.received (some (.message peerId (.disconnect reason))))) = some next ∧
          next.manager = here.manager) := by
  refine ⟨?_, ?_, ?_⟩
  · intro unknown
    obtain ⟨silent, absent⟩ := unregistered_of_disconnect ran disconnects unknown
    refine ⟨fun other message isOk member => ?_, fun frame isOk member => ?_, absent⟩
    · obtain ⟨_, same⟩ := silent _ member
      cases same
    · obtain ⟨_, same⟩ := silent _ member
      cases same
  · rintro announced ⟨frame, isOk, rfl⟩
    obtain ⟨reason, rfl⟩ := Message.isDisconnect_iff.mp disconnects
    obtain ⟨noFrame, noEvent⟩ := parted_of_disconnect ran announced
    refine ⟨noFrame, noEvent, fun ended => ?_⟩
    rw [(Node.runs_orderly ran).manager.cleared ended]
    exact Finmap.lookup_empty peerId
  · rintro announced reason rfl
    have alone := Node.runs_connection ran peerId
    rw [actionsOf_split] at alone
    refine ⟨goes_on_after_disconnect alone (mem_actionsOf.mpr announced), ?_⟩
    rintro first second rfl
    rw [← List.cons_append, ← List.append_assoc] at ran
    obtain ⟨here, next, earlier, stepped, _⟩ := runs_split ran
    exact ⟨here, next, earlier, stepped, manager_after_disconnect stepped⟩

end Runs

section Sample

def sampleFarewell : Message := .disconnect "bye"

/-- A `Disconnect` in the place of the `Status`, and one after it. -/
theorem disconnect_ends_session_early : (∃ node,
    runs (Node.step sampleHost 1) sampleNode ([.accepted] ++
      .connection samplePeer (.received (some (.ok sampleFarewell))) ::
        [.connection samplePeer (.emitted (.disconnected samplePeer) true)]) = some node ∧
    node.manager.peerMap.lookup samplePeer = none) ∧ ∃ node,
    runs (Node.step sampleHost 1) sampleNode (sampleJoin ++
      .connection samplePeer (.received (some (.ok sampleFarewell))) ::
        [.connection samplePeer (.emitted (.message samplePeer sampleFarewell) true)]) = some node ∧
    node.pointOf samplePeer = .select .established := by
  have possible : (runs (Node.step sampleHost 1) sampleNode ([.accepted] ++
      .connection samplePeer (.received (some (.ok sampleFarewell))) ::
        [.connection samplePeer (.emitted (.disconnected samplePeer) true)])).isSome = true ∧
      (runs (Node.step sampleHost 1) sampleNode (sampleJoin ++
        .connection samplePeer (.received (some (.ok sampleFarewell))) ::
          [.connection samplePeer (.emitted (.message samplePeer sampleFarewell) true)])).isSome = true := by
    decide +kernel
  obtain ⟨node, ran⟩ := Option.isSome_iff_exists.mp possible.1
  obtain ⟨node', ran'⟩ := Option.isSome_iff_exists.mp possible.2
  have unknown : ¬ Node.Announced [.accepted] samplePeer := by
    intro announced
    cases List.mem_singleton.mp announced
  have announced : Node.Announced sampleJoin samplePeer := by
    unfold Node.Announced sampleJoin sampleJoinOf
    simp [samplePeer]
  refine ⟨⟨node, ran, ((disconnect_ends_session ran rfl).1 unknown).2.2⟩, node', ran', ?_⟩
  rcases ((disconnect_ends_session ran' rfl).2.2 announced "bye" rfl).1 with none | ⟨isOk, rest, own, goesOn⟩
  · cases none
  · cases own
    exact (Option.some.inj (goesOn rfl)).symm

/-- The manager has seen the `Disconnect` of a registered peer; the session goes on. -/
def sampleGoodbye : List NodeAction := [
  .connection samplePeer (.received (some (.ok sampleFarewell))),
  .connection samplePeer (.emitted (.message samplePeer sampleFarewell) true),
  .manager (.received (some (.message samplePeer sampleFarewell)))]

def samplePing : List NodeAction := [
  .connection samplePeer (.received (some (.ok .ping))),
  .connection samplePeer (.emitted (.message samplePeer .ping) true),
  .manager (.received (some (.message samplePeer .ping))),
  .manager (.enqueued ⟨samplePeer⟩ .pong true),
  .connection samplePeer (.took (some .pong)),
  .connection samplePeer (.wrote .pong true)]

/-- A shutdown has got to the first of two peers, which sends one more message. -/
def sampleShutdown : List NodeAction := [
  .signalled,
  .manager .shutdown,
  .manager (.iterated [(samplePeer, ⟨samplePeer⟩), (⟨2⟩, ⟨⟨2⟩⟩)]),
  .manager (.enqueued ⟨samplePeer⟩ (.disconnect "node shutting down") true),
  .connection samplePeer (.took (some (.disconnect "node shutting down"))),
  .connection samplePeer (.wrote (.disconnect "node shutting down") true),
  .connection samplePeer (.received (some (.ok .ping))),
  .connection samplePeer (.emitted (.message samplePeer .ping) true)]

/-- After the `Disconnect` of a registered peer the manager still has it, a `Ping` of it is forwarded and the
`Pong` is written. After the `Disconnect` of a shutdown a `Ping` is forwarded. -/
theorem disconnect_registered :
    (runs (Node.step sampleHost 1) sampleNode (sampleJoin ++ sampleGoodbye ++ samplePing)).map
      (fun node => node.manager.peerMap.lookup samplePeer) = some (some ⟨samplePeer⟩) ∧
    (runs (Node.step sampleHost 1) sampleNode (sampleJoin ++ sampleJoinOf ⟨2⟩ ++ sampleShutdown)).isSome = true := by
  decide +kernel

end Sample

end MiniEthNode
