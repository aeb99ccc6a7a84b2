import MiniEthNode.Networking.Connection

namespace MiniEthNode
open Rust

def Message.isStatus : Message → Bool
  | .status .. => true
  | _ => false

/-- The events that got into the channel to the manager. -/
def emittedEvents (actions : List ConnectionAction) : List PeerEvent :=
  actions.filterMap fun
    | .emitted event true => some event
    | _ => none

section Events
variable {actions : List ConnectionAction}

theorem emittedEvents_append (first second : List ConnectionAction) :
    emittedEvents (first ++ second) = emittedEvents first ++ emittedEvents second :=
  List.filterMap_append

theorem mem_emittedEvents {event : PeerEvent} :
    event ∈ emittedEvents actions ↔ ConnectionAction.emitted event true ∈ actions := by
  unfold emittedEvents
  rw [List.mem_filterMap]
  constructor
  · rintro ⟨action, member, told⟩
    split at told
    · cases told
      exact member
    · cases told
  · exact fun member => ⟨_, member, rfl⟩

end Events

/-- Only messages that come too early have been taken. -/
def Early (actions : List ConnectionAction) : Prop :=
  ∀ action ∈ actions, ∃ message, action = .took (some message)

theorem Early.emittedEvents {actions : List ConnectionAction} (early : Early actions) : emittedEvents actions = [] := by
  refine List.filterMap_eq_nil_iff.mpr fun action member => ?_
  obtain ⟨message, rfl⟩ := early action member
  rfl

section Connections
variable (context : ConnectionContext)

/-- The first message received is a `Status` for the right chain, and the `Status` in reply has been sent. -/
def Greeted (actions : List ConnectionAction) : Prop :=
  ∃ early headHash totalDifficulty snapshot, Early early ∧ actions = early ++
    [.received (some (.ok (.status context.expectedChainId headHash totalDifficulty))), .readHead snapshot,
      .wrote (ConnectionPoint.statusReply context snapshot) true]

/-- The peer is registered, and after that there are only messages. -/
def Opened (events : List PeerEvent) : Prop :=
  ∃ messages : List Message, (∀ message ∈ messages, message.isStatus = false) ∧
    events = .connected context.peerId context.peerSender :: messages.map (.message context.peerId)

/-- The events of a connection in their order, up to some point. -/
def Ordered (events : List PeerEvent) : Prop :=
  events <+: [.disconnected context.peerId] ∨
    ∃ opened, Opened context opened ∧ events <+: opened ++ [.disconnected context.peerId]

/-- What a connection has done when it waits at a point. -/
def Progressed (actions : List ConnectionAction) : ConnectionPoint → Prop
  | .select .awaitingStatus => Early actions
  | .refuse _ => emittedEvents actions = []
  | .readHead => ∃ early headHash totalDifficulty, Early early ∧ actions = early ++
      [.received (some (.ok (.status context.expectedChainId headHash totalDifficulty)))]
  | .reply snapshot => ∃ early headHash totalDifficulty, Early early ∧ actions = early ++
      [.received (some (.ok (.status context.expectedChainId headHash totalDifficulty))), .readHead snapshot]
  | .register => Greeted context actions
  | .select .established | .write _ => Opened context (emittedEvents actions)
  | .forward message => Opened context (emittedEvents actions) ∧ message.isStatus = false
  | .leave => emittedEvents actions = [] ∨ Opened context (emittedEvents actions)
  | .ended => Ordered context (emittedEvents actions)

variable {context} {actions : List ConnectionAction}

theorem Greeted.emittedEvents (greeted : Greeted context actions) : emittedEvents actions = [] := by
  obtain ⟨early, headHash, totalDifficulty, snapshot, silent, rfl⟩ := greeted
  rw [emittedEvents_append, silent.emittedEvents]
  rfl

theorem Opened.concat {events : List PeerEvent} (opened : Opened context events) {message : Message}
    (noStatus : message.isStatus = false) : Opened context (events ++ [.message context.peerId message]) := by
  obtain ⟨messages, noStatuses, rfl⟩ := opened
  refine ⟨messages ++ [message], ?_, by rw [List.map_append]; rfl⟩
  intro other member
  rcases List.mem_append.mp member with earlier | last
  · exact noStatuses other earlier
  · rwa [List.mem_singleton.mp last]

/-- At every point the events are in order. -/
theorem Progressed.ordered {point : ConnectionPoint} (progressed : Progressed context actions point) :
    Ordered context (emittedEvents actions) := by
  have silent {events : List PeerEvent} (empty : events = []) : Ordered context events :=
    .inl (empty ▸ List.nil_prefix)
  have opened {events : List PeerEvent} (opened : Opened context events) : Ordered context events :=
    .inr ⟨events, opened, List.prefix_append _ _⟩
  match point, progressed with
  | .select .awaitingStatus, early => exact silent (Early.emittedEvents early)
  | .refuse _, empty => exact silent empty
  | .readHead, ⟨early, _, _, before, same⟩ =>
    exact silent (by rw [same, emittedEvents_append, before.emittedEvents]; rfl)
  | .reply _, ⟨early, _, _, before, same⟩ =>
    exact silent (by rw [same, emittedEvents_append, before.emittedEvents]; rfl)
  | .register, greeted => exact silent (Greeted.emittedEvents greeted)
  | .select .established, established => exact opened established
  | .write _, established => exact opened established
  | .forward _, ⟨established, _⟩ => exact opened established
  | .leave, .inl empty => exact silent empty
  | .leave, .inr established => exact opened established
  | .ended, ordered => exact ordered

/-- A connection that stops in its loop has emitted nothing, or has been registered. -/
theorem Progressed.leave {state : HandshakeState} (progressed : Progressed context actions (.select state)) :
    emittedEvents actions = [] ∨ Opened context (emittedEvents actions) := by
  cases state with
  | awaitingStatus => exact .inl (Early.emittedEvents progressed)
  | established => exact .inr progressed

theorem Progressed.message {state : HandshakeState} {message : Message}
    (progressed : Progressed context actions (.select state)) :
    Progressed context (actions ++ [.received (some (.ok message))])
      (ConnectionPoint.handleMessage context state message) := by
  have same : emittedEvents (actions ++ [.received (some (.ok message))]) = emittedEvents actions := by
    rw [emittedEvents_append]
    exact List.append_nil _
  have left := progressed.leave
  rw [← same] at left
  unfold ConnectionPoint.handleMessage
  split
  · split
    · exact same.trans (Early.emittedEvents progressed)
    · rename_i right
      rw [not_not.mp right]
      exact ⟨actions, _, _, progressed, rfl⟩
  · exact left
  · exact left
  · rename_i other
    refine ⟨same ▸ progressed, ?_⟩
    unfold Message.isStatus
    split
    · exact (other _ _ _ rfl).elim
    · rfl

theorem Progressed.outbound {state : HandshakeState} {rx : Option Message}
    (progressed : Progressed context actions (.select state)) :
    Progressed context (actions ++ [.took rx]) (ConnectionPoint.handleOutbound state rx) := by
  have same : emittedEvents (actions ++ [.took rx]) = emittedEvents actions := by
    rw [emittedEvents_append]
    exact List.append_nil _
  have left := progressed.leave
  rw [← same] at left
  unfold ConnectionPoint.handleOutbound
  split
  · change Opened context _
    rwa [same]
  · exact left
  · split
    · exact left
    · rename_i present
      intro action member
      rcases List.mem_append.mp member with earlier | last
      · exact progressed action earlier
      · obtain ⟨message, rfl⟩ := Option.ne_none_iff_exists'.mp (mt Option.isNone_iff_eq_none.mpr present)
        exact ⟨message, List.mem_singleton.mp last⟩

/-- What has been done is kept by every step. -/
theorem Progressed.step {point next : ConnectionPoint} {action : ConnectionAction}
    (progressed : Progressed context actions point) (steps : ConnectionPoint.Steps context point action next) :
    Progressed context (actions ++ [action]) next := by
  -- an action that puts no event into the channel
  have silent (empty : emittedEvents [action] = []) : emittedEvents (actions ++ [action]) = emittedEvents actions := by
    rw [emittedEvents_append, empty, List.append_nil]
  cases steps with
  | message => exact progressed.message
  | codecError =>
    have left := progressed.leave
    rwa [← silent rfl] at left
  | closed =>
    have left := progressed.leave
    rwa [← silent rfl] at left
  | unwound =>
    have ordered := progressed.ordered
    rwa [← silent rfl] at ordered
  | outbound => exact progressed.outbound
  | refused => exact .inl ((silent rfl).trans progressed)
  | readHead =>
    obtain ⟨early, headHash, totalDifficulty, before, rfl⟩ := progressed
    exact ⟨early, headHash, totalDifficulty, before, List.append_assoc _ _ _⟩
  | @replied snapshot isOk =>
    obtain ⟨early, headHash, totalDifficulty, before, same⟩ := progressed
    cases isOk with
    | true => exact ⟨early, headHash, totalDifficulty, snapshot, before, by rw [same, List.append_assoc]; rfl⟩
    | false =>
      refine .inl ((silent rfl).trans ?_)
      rw [same, emittedEvents_append, before.emittedEvents]
      rfl
  | @registered isOk =>
    have before := Greeted.emittedEvents progressed
    cases isOk with
    | true =>
      refine ⟨[], by simp, ?_⟩
      rw [emittedEvents_append, before]
      rfl
    | false => exact .inl ((silent rfl).trans before)
  | @forwarded message isOk =>
    obtain ⟨opened, noStatus⟩ := progressed
    cases isOk with
    | true =>
      have longer := opened.concat noStatus
      change Opened context _
      rwa [emittedEvents_append]
    | false => exact .inr (silent rfl ▸ opened)
  | @written message isOk =>
    have opened : Opened context (emittedEvents actions) := progressed
    rw [← silent rfl] at opened
    cases isOk with
    | true => exact opened
    | false => exact .inr opened
  | @left isOk =>
    cases isOk with
    | true =>
      rcases progressed with empty | opened
      · refine .inl ?_
        rw [emittedEvents_append, empty]
        exact List.prefix_rfl
      · refine .inr ⟨_, opened, ?_⟩
        rw [emittedEvents_append]
        exact List.prefix_rfl
    | false =>
      have waiting : Progressed context actions .leave := progressed
      have ordered := waiting.ordered
      rwa [← silent rfl] at ordered

theorem runs_progressed {point : ConnectionPoint}
    (ran : runs (ConnectionPoint.step context) .start actions = some point) : Progressed context actions point := by
  refine runs_history (P := fun actions point => Progressed context actions point) ?_ ?_ ran
  · intro action member
    cases member
  · intro actions action here next _ progressed stepped
    exact progressed.step (ConnectionPoint.step_eq_some.mp stepped)

theorem Opened.registered (opened : Opened context (emittedEvents actions)) :
    .emitted (.connected context.peerId context.peerSender) true ∈ actions := by
  obtain ⟨messages, _, same⟩ := opened
  exact mem_emittedEvents.mp (same ▸ List.mem_cons_self)

/-- What the handshake of a connection promises about all that it does. -/
structure HandshakeSafe (context : ConnectionContext) (actions : List ConnectionAction) : Prop where
  ordered : Ordered context (emittedEvents actions)
  greeted : ∀ before after peerId sender isOk,
    actions = before ++ .emitted (.connected peerId sender) isOk :: after → Greeted context before
  noStatus : ∀ peerId message isOk, .emitted (.message peerId message) isOk ∈ actions → message.isStatus = false
  /-- A message from `peer_rx` is written after the registration. -/
  delayed : ∀ before after message frame isOk,
    actions = before ++ .took (some message) :: .wrote frame isOk :: after →
      .emitted (.connected context.peerId context.peerSender) true ∈ before
  /-- Before the registration only the handshake itself writes. -/
  reserved : ∀ before after frame isOk, actions = before ++ .wrote frame isOk :: after →
    .emitted (.connected context.peerId context.peerSender) true ∈ before ∨
      (∃ chainId, frame = ConnectionPoint.refusal context chainId) ∨
      ∃ snapshot, frame = ConnectionPoint.statusReply context snapshot

theorem runs_handshakeSafe {point : ConnectionPoint}
    (ran : runs (ConnectionPoint.step context) .start actions = some point) : HandshakeSafe context actions := by
  refine ⟨(runs_progressed ran).ordered, ?_, ?_, ?_, ?_⟩
  · rintro before after peerId sender isOk rfl
    obtain ⟨here, next, first, stepped, _⟩ := runs_split ran
    have progressed := runs_progressed first
    cases ConnectionPoint.step_eq_some.mp stepped
    exact progressed
  · intro peerId message isOk member
    obtain ⟨before, after, rfl⟩ := List.append_of_mem member
    obtain ⟨here, next, first, stepped, _⟩ := runs_split ran
    have progressed := runs_progressed first
    cases ConnectionPoint.step_eq_some.mp stepped
    exact progressed.2
  · rintro before after message frame isOk rfl
    obtain ⟨here, next, first, stepped, later⟩ := runs_split ran
    obtain ⟨_, written, _⟩ := runs_cons_eq_some.mp later
    have progressed := runs_progressed first
    cases ConnectionPoint.step_eq_some.mp stepped with
    | @outbound state =>
      cases state with
      | awaitingStatus => cases ConnectionPoint.step_eq_some.mp written
      | established => exact Opened.registered progressed
  · rintro before after frame isOk rfl
    obtain ⟨here, next, first, stepped, _⟩ := runs_split ran
    have progressed := runs_progressed first
    cases ConnectionPoint.step_eq_some.mp stepped with
    | @refused chainId => exact .inr (.inl ⟨chainId, rfl⟩)
    | @replied snapshot => exact .inr (.inr ⟨snapshot, rfl⟩)
    | written => exact .inl (Opened.registered progressed)

end Connections

end MiniEthNode
