import MiniEthNode.Networking.Manager

namespace MiniEthNode
open Rust

/-- What starts a turn of the loop of `manage`. -/
inductive Cause where
  | event (event : PeerEvent)
  | tick
  | shutdown
  deriving DecidableEq

/-- One `send` to a peer. It fails if the channel of the peer is closed. -/
structure Dispatch where
  peerId : PeerId
  sender : PeerSender
  message : Message
  isOk : Bool
  deriving DecidableEq

structure Turn where
  cause : Cause
  registered : HashMap PeerId PeerSender
  dispatches : List Dispatch

/-- The message that a peer is to get in a turn, if there is one. -/
def addressed : Cause → PeerId → Option Message
  | .event (.message origin .ping), id => if id = origin then some .pong else none
  | .event (.message origin (.transactions txs)), id => if id = origin then none else some (.transactions txs)
  | .event (.sendMessage peerId message), id => if id = peerId then some message else none
  | .tick, _ => some .ping
  | .shutdown, _ => some (.disconnect "node shutting down")
  | .event _, _ => none

/-- A turn for one peer alone. -/
def Cause.Targets (cause : Cause) (peerId : PeerId) (message : Message) : Prop :=
  cause = .event (.sendMessage peerId message) ∨ cause = .event (.message peerId .ping) ∧ message = .pong

namespace Turn

/-- The sends to a peer. -/
def attempts (turn : Turn) (id : PeerId) : List Dispatch := turn.dispatches.filter fun dispatch => dispatch.peerId = id

def failed (turn : Turn) : List PeerId := (turn.dispatches.filter fun dispatch => !dispatch.isOk).map Dispatch.peerId

/-- The peers that are registered after the turn. -/
def remaining (turn : Turn) : HashMap PeerId PeerSender :=
  match turn.cause with
  | .event (.connected peerId sender) => turn.registered.insert peerId sender
  | .event (.disconnected peerId) => turn.registered.erase peerId
  | .shutdown => ∅
  | .event (.message ..) | .event (.sendMessage ..) | .tick => Manager.removeStale turn.registered turn.failed

/-- A turn after which a peer is not registered. -/
def Drops (turn : Turn) (id : PeerId) : Prop :=
  turn.cause = .event (.disconnected id) ∨ ∃ dispatch ∈ turn.dispatches, dispatch.peerId = id ∧ dispatch.isOk = false

def send (turn : Turn) (dispatch : Dispatch) : Turn := { turn with dispatches := turn.dispatches ++ [dispatch] }

/-- A turn has sent to registered peers only what they are to get, and at most once. -/
structure Sound (turn : Turn) : Prop where
  once : (turn.dispatches.map Dispatch.peerId).Nodup
  routed : ∀ dispatch ∈ turn.dispatches,
    turn.registered.lookup dispatch.peerId = some dispatch.sender ∧
      addressed turn.cause dispatch.peerId = some dispatch.message

/-- A turn that has left out nobody. -/
structure Complete (turn : Turn) : Prop extends turn.Sound where
  all : ∀ id sender message, turn.registered.lookup id = some sender → addressed turn.cause id = some message →
    ∃ dispatch ∈ turn.dispatches, dispatch.peerId = id

/-- Each turn starts with the peers that the one before has left. -/
def Chained : HashMap PeerId PeerSender → List Turn → Prop
  | _, [] => True
  | before, turn :: rest => turn.registered = before ∧ Chained turn.remaining rest

section Registration
open Manager
variable {turn : Turn} {id : PeerId}

/-- Only `Connected` registers a peer. -/
theorem remaining_none (absent : turn.registered.lookup id = none)
    (other : ∀ sender, turn.cause ≠ .event (.connected id sender)) : turn.remaining.lookup id = none := by
  unfold remaining
  split
  · rename_i peerId sender caused
    rw [HashMap.lookup_insert_ite, if_neg, absent]
    rintro rfl
    exact other sender caused
  · rw [HashMap.lookup_erase_ite, absent, ite_self]
  · rfl
  · exact lookup_removeStale_none absent _
  · exact lookup_removeStale_none absent _
  · exact lookup_removeStale_none absent _

/-- A peer that left or that a send has failed to is not registered after the turn. -/
theorem Sound.remaining_of_drops (sound : turn.Sound) (drops : turn.Drops id) : turn.remaining.lookup id = none := by
  rcases drops with left | ⟨dispatch, member, rfl, closed⟩
  · rw [remaining, left]
    exact (HashMap.lookup_erase_ite _ _ _).trans (if_pos rfl)
  · have stale : dispatch.peerId ∈ turn.failed :=
      List.mem_map.mpr ⟨dispatch, List.mem_filter.mpr ⟨member, by rw [closed]; rfl⟩, rfl⟩
    have message := (sound.routed dispatch member).2
    unfold remaining
    split
    · rename_i caused
      rw [caused] at message
      cases message
    · rename_i caused
      rw [caused] at message
      cases message
    · rfl
    · exact lookup_removeStale_of_mem stale _
    · exact lookup_removeStale_of_mem stale _
    · exact lookup_removeStale_of_mem stale _

theorem Chained.concat {before : HashMap PeerId PeerSender} {turns : List Turn} (chained : Chained before turns)
    (starts : turn.registered = (turns.getLast?.map remaining).getD before) : Chained before (turns ++ [turn]) := by
  induction turns generalizing before with
  | nil => exact ⟨starts, trivial⟩
  | cons first rest ih =>
    refine ⟨chained.1, ih chained.2 ?_⟩
    cases rest with
    | nil => exact starts
    | cons second rest => rwa [List.getLast?_cons_cons] at starts

/-- A chain ends with a turn whatever the turn does after its start. -/
theorem Chained.replace_last {before : HashMap PeerId PeerSender} {turns : List Turn} {turn' : Turn}
    (same : turn'.registered = turn.registered) (chained : Chained before (turns ++ [turn])) :
    Chained before (turns ++ [turn']) := by
  induction turns generalizing before with
  | nil => exact ⟨same.trans chained.1, trivial⟩
  | cons first rest ih => exact ⟨chained.1, ih chained.2⟩

theorem Chained.behind {before : HashMap PeerId PeerSender} {front rest : List Turn}
    (chained : Chained before (front ++ turn :: rest)) : Chained turn.remaining rest := by
  induction front generalizing before with
  | nil => exact chained.2
  | cons first front ih => exact ih chained.2

/-- Without a `Connected` for it a peer stays unknown. -/
theorem Chained.absent {before : HashMap PeerId PeerSender} {middle rest : List Turn} {later : Turn}
    (chained : Chained before (middle ++ later :: rest)) (absent : before.lookup id = none)
    (unconnected : ∀ other ∈ middle, ∀ sender, other.cause ≠ .event (.connected id sender)) :
    later.registered.lookup id = none := by
  induction middle generalizing before with
  | nil => rw [chained.1, absent]
  | cons first middle ih =>
    refine ih chained.2 (remaining_none ?_ (unconnected first List.mem_cons_self)) fun other member =>
      unconnected other (List.mem_cons_of_mem _ member)
    rw [chained.1, absent]

end Registration

end Turn

def Broadcast.cause : Broadcast → Cause
  | relay txs origin => .event (.message origin (.transactions txs))
  | ping => .tick
  | shutdown => .shutdown

theorem addressed_broadcast (broadcast : Broadcast) (id : PeerId) :
    addressed broadcast.cause id = if broadcast.skips id then none else some broadcast.message := by
  cases broadcast with
  | relay txs origin => simp [Broadcast.cause, addressed, Broadcast.skips, Broadcast.message]
  | ping => rfl
  | shutdown => rfl

theorem Cause.Targets.addressed {cause : Cause} {peerId : PeerId} {message : Message}
    (targets : cause.Targets peerId message) (id : PeerId) :
    addressed cause id = if id = peerId then some message else none := by
  rcases targets with rfl | ⟨rfl, rfl⟩ <;> rfl

theorem addressed_eq_pong {cause : Cause} {id : PeerId} (wanted : addressed cause id = some .pong) :
    cause = .event (.message id .ping) ∨ cause = .event (.sendMessage id .pong) := by
  unfold addressed at wanted
  split at wanted
  · split at wanted
    · rename_i same
      exact .inl (same ▸ rfl)
    · cases wanted
  · split at wanted <;> cases wanted
  · split at wanted
    · rename_i same
      cases wanted
      exact .inr (same ▸ rfl)
    · cases wanted
  · cases wanted
  · cases wanted
  · cases wanted

namespace Turn
variable {turn : Turn}

theorem remaining_of_targets {peerId : PeerId} {message : Message} (targets : turn.cause.Targets peerId message) :
    turn.remaining = Manager.removeStale turn.registered turn.failed := by
  unfold Turn.remaining
  rcases targets with same | ⟨same, -⟩ <;> rw [same]

theorem sound_nil (nothing : turn.dispatches = []) : turn.Sound := by
  constructor <;> simp [nothing]

/-- Nobody who is registered is to get anything. -/
theorem complete_nil (nothing : turn.dispatches = [])
    (nobody : ∀ id, turn.registered.lookup id = none ∨ addressed turn.cause id = none) : turn.Complete where
  toSound := sound_nil nothing
  all id sender message found wanted := by
    rcases nobody id with absent | unaddressed
    · cases found.symm.trans absent
    · cases wanted.symm.trans unaddressed

/-- A turn within a loop over the peers: some of them have been sent to, in the order of the loop. -/
structure Broadcasts (turn : Turn) (broadcast : Broadcast) (rest : List (PeerId × PeerSender))
    (stalePeers : List PeerId) : Prop where
  caused : turn.cause = broadcast.cause
  order : ∃ order, turn.registered.Enumerates order ∧
    order.filter (fun entry => !broadcast.skips entry.1) =
      turn.dispatches.map (fun dispatch => (dispatch.peerId, dispatch.sender)) ++ rest
  same : ∀ dispatch ∈ turn.dispatches, dispatch.message = broadcast.message
  stale : stalePeers = turn.failed

section Loop
variable {broadcast : Broadcast} {rest : List (PeerId × PeerSender)} {stalePeers : List PeerId}

theorem Broadcasts.visited (broadcasts : turn.Broadcasts broadcast rest stalePeers) {id : PeerId}
    {sender : PeerSender} :
    (id, sender) ∈ turn.dispatches.map (fun dispatch => (dispatch.peerId, dispatch.sender)) ++ rest ↔
      turn.registered.lookup id = some sender ∧ broadcast.skips id = false := by
  obtain ⟨order, enumerates, split⟩ := broadcasts.order
  rw [← split, List.mem_filter, enumerates.mem_iff]
  simp

theorem Broadcasts.sound (broadcasts : turn.Broadcasts broadcast rest stalePeers) : turn.Sound where
  once := by
    obtain ⟨order, enumerates, split⟩ := broadcasts.order
    have distinct : ((order.filter fun entry => !broadcast.skips entry.1).map Prod.fst).Nodup :=
      enumerates.1.sublist (List.filter_sublist.map Prod.fst)
    rw [split, List.map_append, List.map_map] at distinct
    exact distinct.of_append_left
  routed dispatch member := by
    have known := broadcasts.visited.mp (List.mem_append_left rest (List.mem_map.mpr ⟨dispatch, member, rfl⟩))
    refine ⟨known.1, ?_⟩
    rw [broadcasts.caused, addressed_broadcast, known.2, broadcasts.same dispatch member]
    rfl

theorem Broadcasts.complete (broadcasts : turn.Broadcasts broadcast [] stalePeers) : turn.Complete where
  toSound := broadcasts.sound
  all id sender message found wanted := by
    rw [broadcasts.caused, addressed_broadcast] at wanted
    split at wanted
    · cases wanted
    · rename_i taken
      have visited := broadcasts.visited.mpr ⟨found, by simpa using taken⟩
      rw [List.append_nil] at visited
      obtain ⟨dispatch, member, same⟩ := List.mem_map.mp visited
      exact ⟨dispatch, member, congrArg Prod.fst same⟩

theorem Broadcasts.send {id : PeerId} {sender : PeerSender}
    (broadcasts : turn.Broadcasts broadcast ((id, sender) :: rest) stalePeers) (isOk : Bool) :
    (turn.send ⟨id, sender, broadcast.message, isOk⟩).Broadcasts broadcast rest
      (if isOk then stalePeers else stalePeers ++ [id]) where
  caused := broadcasts.caused
  order := by
    obtain ⟨order, enumerates, split⟩ := broadcasts.order
    refine ⟨order, enumerates, ?_⟩
    rw [split, Turn.send, List.map_append, List.append_assoc]
    rfl
  same dispatch member := by
    rcases List.mem_append.mp member with earlier | last
    · exact broadcasts.same dispatch earlier
    · rw [List.mem_singleton.mp last]
  stale := by
    rw [broadcasts.stale, failed, failed, Turn.send, List.filter_append, List.map_append]
    cases isOk with
    | true => exact (List.append_nil _).symm
    | false => rfl

end Loop

/-- What the place where the manager waits tells about its turn. -/
def Doing (turn : Turn) : ManagerPoint → HashMap PeerId PeerSender → Prop
  | .select, peerMap | .ended, peerMap | .forward _, peerMap => turn.Complete ∧ peerMap = turn.remaining
  | .send peerId sender message, peerMap =>
    turn.dispatches = [] ∧ peerMap = turn.registered ∧ turn.registered.lookup peerId = some sender ∧
      turn.cause.Targets peerId message
  | .iterate broadcast, peerMap =>
    turn.dispatches = [] ∧ peerMap = turn.registered ∧ turn.cause = broadcast.cause
  | .broadcast broadcast rest stalePeers, peerMap =>
    peerMap = turn.registered ∧ turn.Broadcasts broadcast rest stalePeers

theorem Doing.sound {point : ManagerPoint} {peerMap : HashMap PeerId PeerSender} (doing : turn.Doing point peerMap) :
    turn.Sound := by
  cases point with
  | select | ended | forward => exact doing.1.toSound
  | send | iterate => exact sound_nil doing.1
  | broadcast => exact doing.2.sound

/-- A loop goes on with its next peer, or it is done and the peers that a send has failed to are removed. -/
theorem Broadcasts.doing {broadcast : Broadcast} {rest : List (PeerId × PeerSender)} {stalePeers : List PeerId}
    (broadcasts : turn.Broadcasts broadcast rest stalePeers) :
    turn.Doing (Manager.advance turn.registered broadcast rest stalePeers).point
      (Manager.advance turn.registered broadcast rest stalePeers).peerMap := by
  unfold Manager.advance
  split
  · exact ⟨rfl, broadcasts⟩
  · refine ⟨broadcasts.complete, ?_⟩
    rw [remaining, broadcasts.caused]
    rfl
  · refine ⟨broadcasts.complete, ?_⟩
    rw [remaining, broadcasts.caused, ← broadcasts.stale]
    rfl
  · refine ⟨broadcasts.complete, ?_⟩
    rw [remaining, broadcasts.caused, ← broadcasts.stale]
    rfl

/-- The send to one peer ends its turn. -/
theorem doing_sent {peerId : PeerId} {sender : PeerSender} {message : Message} (nothing : turn.dispatches = [])
    (known : turn.registered.lookup peerId = some sender) (targets : turn.cause.Targets peerId message)
    (isOk : Bool) :
    (turn.send ⟨peerId, sender, message, isOk⟩).Doing .select
      (if isOk then turn.registered else turn.registered.erase peerId) := by
  have sent : (turn.send ⟨peerId, sender, message, isOk⟩).dispatches = [⟨peerId, sender, message, isOk⟩] := by
    rw [Turn.send, nothing]
    rfl
  refine ⟨⟨⟨by simp [sent], ?_⟩, ?_⟩, ?_⟩
  · intro dispatch member
    rw [sent, List.mem_singleton] at member
    subst member
    exact ⟨known, (targets.addressed peerId).trans (if_pos rfl)⟩
  · intro id _ _ _ wanted
    refine ⟨_, by rw [sent]; exact List.mem_singleton_self _, ?_⟩
    have chosen := (targets.addressed id).symm.trans wanted
    split at chosen
    · rename_i same
      exact same.symm
    · cases chosen
  · have left : (turn.send ⟨peerId, sender, message, isOk⟩).remaining = _ := remaining_of_targets targets
    rw [left, failed, sent]
    cases isOk <;> rfl

theorem doing_sendTo {manager : Manager} (select : manager.point = .select) {cause : Cause} {peerId : PeerId}
    {message : Message} (targets : cause.Targets peerId message) :
    Doing ⟨cause, manager.peerMap, []⟩ (manager.sendTo peerId message).point (manager.sendTo peerId message).peerMap := by
  unfold Manager.sendTo
  split
  · rename_i sender known
    exact ⟨rfl, rfl, known, targets⟩
  · rename_i absent
    have left : remaining ⟨cause, manager.peerMap, []⟩ = manager.peerMap := remaining_of_targets targets
    rw [select]
    refine ⟨complete_nil rfl fun id => ?_, left.symm⟩
    by_cases same : id = peerId
    · subst same
      exact .inl absent
    · exact .inr ((targets.addressed id).trans (if_neg same))

/-- The event of a turn is handled at once, or leads to a send, a loop over the peers or the processor. -/
theorem doing_handleEvent {manager : Manager} (select : manager.point = .select) (event : PeerEvent) :
    Doing ⟨.event event, manager.peerMap, []⟩ (manager.handleEvent event).point
      (manager.handleEvent event).peerMap := by
  have quiet {next : Manager} (waits : next.point = .select)
      (unaddressed : ∀ id, addressed (.event event) id = none)
      (left : next.peerMap = remaining ⟨.event event, manager.peerMap, []⟩) :
      Doing ⟨.event event, manager.peerMap, []⟩ next.point next.peerMap := by
    rw [waits]
    exact ⟨complete_nil rfl fun id => .inr (unaddressed id), left⟩
  cases event with
  | connected peerId sender => exact quiet select (fun _ => rfl) rfl
  | disconnected peerId => exact quiet select (fun _ => rfl) rfl
  | message peerId message =>
    cases message with
    | ping => exact doing_sendTo select (.inr ⟨rfl, rfl⟩)
    | transactions txs => exact ⟨rfl, rfl, rfl⟩
    | newBlock | getAccountState | getChainHead => exact ⟨complete_nil rfl fun _ => .inr rfl, rfl⟩
    | status | pong | getBlockHeaders | newBlockHashes | blockHeaders | disconnect | accountState | chainHead =>
      exact quiet select (fun _ => rfl) rfl
  | sendMessage peerId message => exact doing_sendTo select (.inl rfl)

/-- A peer is sent to once or not at all. -/
theorem Sound.attempts_cases (sound : turn.Sound) (id : PeerId) :
    turn.attempts id = [] ∨ ∃ dispatch ∈ turn.dispatches, dispatch.peerId = id ∧ turn.attempts id = [dispatch] := by
  have distinct : ((turn.attempts id).map Dispatch.peerId).Nodup :=
    sound.once.sublist (List.filter_sublist.map Dispatch.peerId)
  have each : ∀ dispatch ∈ turn.attempts id, dispatch ∈ turn.dispatches ∧ dispatch.peerId = id := by
    intro dispatch member
    simpa [attempts] using member
  match found : turn.attempts id with
  | [] => exact .inl rfl
  | [dispatch] =>
    obtain ⟨member, same⟩ := each dispatch (by simp [found])
    exact .inr ⟨dispatch, member, same, rfl⟩
  | first :: second :: rest =>
    have same := (each first (by simp [found])).2.trans (each second (by simp [found])).2.symm
    rw [found] at distinct
    simp [same] at distinct

theorem attempts_ne_nil {dispatch : Dispatch} (member : dispatch ∈ turn.dispatches) :
    turn.attempts dispatch.peerId ≠ [] := by
  refine List.ne_nil_of_mem (List.mem_filter.mpr ⟨member, ?_⟩)
  simp

theorem Sound.attempts_eq_nil (sound : turn.Sound) {id : PeerId}
    (nobody : turn.registered.lookup id = none ∨ addressed turn.cause id = none) : turn.attempts id = [] := by
  rcases sound.attempts_cases id with none | ⟨dispatch, member, rfl, -⟩
  · exact none
  · obtain ⟨known, wanted⟩ := sound.routed dispatch member
    rcases nobody with absent | unaddressed
    · cases known.symm.trans absent
    · cases wanted.symm.trans unaddressed

end Turn

end MiniEthNode
