import MiniEthNode.Networking.Turns

namespace MiniEthNode
open Rust

def ManagerAction.cause : ManagerAction → Option Cause
  | .received (some event) => some (.event event)
  | .ticked => some .tick
  | .shutdown => some .shutdown
  | .received none | .iterated _ | .enqueued .. | .forwarded .. => none

def ManagerAction.isEnqueue : ManagerAction → Bool
  | .enqueued .. => true
  | .received _ | .ticked | .shutdown | .iterated _ | .forwarded .. => false

def Dispatch.action (dispatch : Dispatch) : ManagerAction :=
  .enqueued dispatch.sender dispatch.message dispatch.isOk

/-- The peer whose sender is used next. -/
def ManagerPoint.target : ManagerPoint → Option PeerId
  | .send peerId _ _ => some peerId
  | .broadcast _ ((id, _) :: _) _ => some id
  | .select | .forward _ | .iterate _ | .broadcast _ [] _ | .ended => none

/-- The manager with the log of its turns. The last one may not have come to its end. -/
structure Logged where
  manager : Manager
  past : List Turn
  current : Option Turn

namespace Logged

def start : Logged := ⟨.new, [], none⟩

def turns (log : Logged) : List Turn := log.past ++ log.current.toList

/-- The turns that have come to their end: all of them if the manager is at rest. -/
def Finished (log : Logged) (turn : Turn) : Prop :=
  turn ∈ log.past ∨ turn ∈ log.turns ∧ (log.manager.point = .select ∨ log.manager.point = .ended)

/-- The log after an action of the manager. -/
def record (log : Logged) (action : ManagerAction) (next : Manager) : Logged :=
  match action, action.cause, log.manager.point.target with
  | _, some cause, _ => ⟨next, log.turns, some ⟨cause, log.manager.peerMap, []⟩⟩
  | .enqueued sender message isOk, none, some id =>
    ⟨next, log.past, log.current.map fun turn => turn.send ⟨id, sender, message, isOk⟩⟩
  | _, none, _ => ⟨next, log.past, log.current⟩

def step (log : Logged) (action : ManagerAction) : Option Logged :=
  (log.manager.step action).map (log.record action)

end Logged

/-- The routing of a run. -/
structure Routed (actions : List ManagerAction) (log : Logged) : Prop where
  /-- Each event, tick and signal has its turn, in the order in which they were handled. -/
  causes : log.turns.map Turn.cause = actions.filterMap ManagerAction.cause
  /-- The sends of the run are those of the turns, in the order of the turns. -/
  ordered : (log.turns.flatMap Turn.dispatches).map Dispatch.action = actions.filter ManagerAction.isEnqueue
  /-- Transactions are sent once to each other peer that is registered, and to nobody else. -/
  relayed : ∀ turn ∈ log.turns, ∀ origin txs, turn.cause = .event (.message origin (.transactions txs)) →
    ∀ id, (id = origin ∨ turn.registered.lookup id = none → turn.attempts id = []) ∧
      ∀ sender, turn.registered.lookup id = some sender → id ≠ origin →
        (turn.attempts id = [] ∧ ¬ log.Finished turn) ∨
          ∃ isOk, turn.attempts id = [⟨id, sender, .transactions txs, isOk⟩]
  /-- A message for one peer is sent to this peer, and only if it is registered. -/
  targeted : ∀ turn ∈ log.turns, ∀ peerId message, turn.cause.Targets peerId message →
    ∀ dispatch ∈ turn.dispatches,
      dispatch.peerId = peerId ∧ dispatch.message = message ∧ turn.registered.lookup peerId = some dispatch.sender
  /-- A pong is sent only for a ping of the same peer, or if it is to be sent as a message. -/
  pongs : ∀ turn ∈ log.turns, ∀ dispatch ∈ turn.dispatches, dispatch.message = .pong →
    turn.cause = .event (.message dispatch.peerId .ping) ∨ turn.cause = .event (.sendMessage dispatch.peerId .pong)
  /-- After it has left or a send to it has failed, a peer gets nothing until it is registered again. -/
  silent : ∀ front turn middle later rest id, log.turns = front ++ turn :: (middle ++ later :: rest) →
    turn.Drops id → (∀ other ∈ middle, ∀ sender, other.cause ≠ .event (.connected id sender)) →
    ∀ dispatch ∈ later.dispatches, dispatch.peerId ≠ id

namespace Logged
variable {log next : Logged} {action : ManagerAction}

theorem step_eq_some : log.step action = some next ↔
    ∃ manager, log.manager.Steps action manager ∧ next = log.record action manager := by
  simp only [step, Option.map_eq_some_iff, Manager.step_eq_some, eq_comm (a := next)]

theorem record_cause {cause : Cause} (caused : action.cause = some cause) (manager : Manager) :
    log.record action manager = ⟨manager, log.turns, some ⟨cause, log.manager.peerMap, []⟩⟩ := by
  unfold record
  rw [caused]

theorem record_enqueued {id : PeerId} (target : log.manager.point.target = some id) (sender : PeerSender)
    (message : Message) (isOk : Bool) (manager : Manager) :
    log.record (.enqueued sender message isOk) manager =
      ⟨manager, log.past, log.current.map fun turn => turn.send ⟨id, sender, message, isOk⟩⟩ := by
  unfold record
  rw [target]
  rfl

/-- The invariant of the log. -/
structure Valid (log : Logged) : Prop where
  chained : Turn.Chained ∅ log.turns
  complete : ∀ turn ∈ log.past, turn.Complete
  doing : ∀ turn ∈ log.current, turn.Doing log.manager.point log.manager.peerMap
  fresh : log.current = none → log.past = [] ∧ log.manager.peerMap = ∅ ∧
    (log.manager.point = .select ∨ log.manager.point = .ended)

theorem valid_start : start.Valid where
  chained := trivial
  complete := by simp [start]
  doing := by simp [start]
  fresh _ := ⟨rfl, rfl, .inl rfl⟩

/-- When the manager is back in its loop, the last turn is complete and has left its peers to the next one. -/
theorem Valid.rest (valid : log.Valid) (select : log.manager.point = .select) :
    (∀ turn ∈ log.turns, turn.Complete) ∧
      log.manager.peerMap = (log.turns.getLast?.map Turn.remaining).getD ∅ := by
  cases present : log.current with
  | none =>
    obtain ⟨empty, unregistered, -⟩ := valid.fresh present
    simp [turns, present, empty, unregistered]
  | some turn =>
    have doing := valid.doing turn present
    rw [select] at doing
    constructor
    · intro other member
      rw [turns, present] at member
      rcases List.mem_append.mp member with earlier | last
      · exact valid.complete other earlier
      · rw [List.mem_singleton.mp last]
        exact doing.1
    · rw [turns, present, Option.toList_some, List.getLast?_concat]
      exact doing.2

/-- A new turn starts. -/
theorem Valid.begin (valid : log.Valid) (select : log.manager.point = .select) {cause : Cause} {manager : Manager}
    (doing : Turn.Doing ⟨cause, log.manager.peerMap, []⟩ manager.point manager.peerMap) :
    Valid ⟨manager, log.turns, some ⟨cause, log.manager.peerMap, []⟩⟩ where
  chained := valid.chained.concat (valid.rest select).2
  complete := (valid.rest select).1
  doing turn member := by
    cases member
    exact doing
  fresh := by simp

/-- The turn goes on without a send. -/
theorem Valid.stay (valid : log.Valid) {turn : Turn} (present : log.current = some turn) {manager : Manager}
    (doing : turn.Doing manager.point manager.peerMap) : Valid ⟨manager, log.past, log.current⟩ where
  chained := valid.chained
  complete := valid.complete
  doing other member := by
    cases member.symm.trans present
    exact doing
  fresh absent := by cases present.symm.trans absent

/-- The turn goes on with a send. -/
theorem Valid.send (valid : log.Valid) {turn : Turn} (present : log.current = some turn) {dispatch : Dispatch}
    {manager : Manager} (doing : (turn.send dispatch).Doing manager.point manager.peerMap) :
    Valid ⟨manager, log.past, log.current.map fun turn => turn.send dispatch⟩ where
  chained := by
    have chained := valid.chained
    have same : (turn.send dispatch).registered = turn.registered := rfl
    rw [turns, present] at chained ⊢
    exact chained.replace_last same
  complete := valid.complete
  doing other member := by
    rw [present] at member
    cases member
    exact doing
  fresh := by simp [present]

/-- The manager waits within a turn. -/
theorem Valid.within (valid : log.Valid) {point : ManagerPoint} (waits : log.manager.point = point)
    (notSelect : point ≠ .select) (notEnded : point ≠ .ended) :
    ∃ turn, log.current = some turn ∧ turn.Doing point log.manager.peerMap := by
  cases present : log.current with
  | none =>
    rcases (valid.fresh present).2.2 with select | ended
    · exact (notSelect (waits.symm.trans select)).elim
    · exact (notEnded (waits.symm.trans ended)).elim
  | some turn => exact ⟨turn, rfl, waits ▸ valid.doing turn present⟩

theorem Valid.step (valid : log.Valid) (stepped : log.step action = some next) : next.Valid := by
  obtain ⟨manager, steps, rfl⟩ := step_eq_some.mp stepped
  cases steps with
  | @received event select =>
    rw [record_cause rfl]
    exact valid.begin select (Turn.doing_handleEvent select event)
  | ticked select | shutdown select =>
    rw [record_cause rfl]
    exact valid.begin select ⟨rfl, rfl, rfl⟩
  | exhausted select =>
    refine ⟨valid.chained, valid.complete, fun turn member => ?_, fun absent => ?_⟩
    · have doing := valid.doing turn member
      rw [select] at doing
      exact doing
    · obtain ⟨empty, unregistered, -⟩ := valid.fresh absent
      exact ⟨empty, unregistered, .inr rfl⟩
  | @sent peerId sender message isOk waits =>
    obtain ⟨turn, present, nothing, registered, known, targets⟩ := valid.within waits (by simp) (by simp)
    rw [record_enqueued (by rw [waits]; rfl), registered]
    exact valid.send present (Turn.doing_sent nothing known targets isOk)
  | forwarded waits =>
    obtain ⟨turn, present, doing⟩ := valid.within waits (by simp) (by simp)
    exact valid.stay present doing
  | @iterated broadcast order waits enumerates =>
    obtain ⟨turn, present, nothing, registered, caused⟩ := valid.within waits (by simp) (by simp)
    have entered : turn.Broadcasts broadcast (order.filter fun entry => !broadcast.skips entry.1) [] :=
      ⟨caused, ⟨order, registered ▸ enumerates, by rw [nothing]; rfl⟩, by simp [nothing], by simp [Turn.failed, nothing]⟩
    rw [registered]
    exact valid.stay present entered.doing
  | @broadcast broadcast id sender rest stalePeers isOk waits =>
    obtain ⟨turn, present, registered, broadcasts⟩ := valid.within waits (by simp) (by simp)
    rw [record_enqueued (by rw [waits]; rfl), registered]
    exact valid.send present (broadcasts.send isOk).doing

theorem Valid.sound (valid : log.Valid) {turn : Turn} (member : turn ∈ log.turns) : turn.Sound := by
  rcases List.mem_append.mp member with earlier | last
  · exact (valid.complete turn earlier).toSound
  · exact (valid.doing turn (Option.mem_toList.mp last)).sound

theorem Valid.complete_of_finished (valid : log.Valid) {turn : Turn} (finished : log.Finished turn) :
    turn.Complete := by
  rcases finished with earlier | ⟨member, waits⟩
  · exact valid.complete turn earlier
  · rcases List.mem_append.mp member with earlier | last
    · exact valid.complete turn earlier
    · have doing := valid.doing turn (Option.mem_toList.mp last)
      rcases waits with select | ended
      · rw [select] at doing
        exact doing.1
      · rw [ended] at doing
        exact doing.1

/-- An action adds its turn or its send at the end of the log. -/
structure Adds (log : Logged) (action : ManagerAction) (next : Logged) : Prop where
  causes : next.turns.map Turn.cause = log.turns.map Turn.cause ++ [action].filterMap ManagerAction.cause
  dispatches : (next.turns.flatMap Turn.dispatches).map Dispatch.action =
    (log.turns.flatMap Turn.dispatches).map Dispatch.action ++ [action].filter ManagerAction.isEnqueue

theorem adds_cause {cause : Cause} (caused : action.cause = some cause) (other : action.isEnqueue = false)
    (manager : Manager) : log.Adds action (log.record action manager) := by
  rw [record_cause caused]
  constructor
  · simp [turns, caused]
  · simp [turns, other]

theorem adds_enqueued {turn : Turn} (present : log.current = some turn) {id : PeerId}
    (target : log.manager.point.target = some id) (sender : PeerSender) (message : Message) (isOk : Bool)
    (manager : Manager) :
    log.Adds (.enqueued sender message isOk) (log.record (.enqueued sender message isOk) manager) := by
  rw [record_enqueued target]
  constructor
  · simp [turns, present, Turn.send, ManagerAction.cause]
  · simp only [turns, present, Option.map_some, Option.toList_some, List.flatMap_append, List.flatMap_singleton,
      Turn.send, List.map_append, List.append_assoc]
    rfl

theorem Valid.adds (valid : log.Valid) (stepped : log.step action = some next) : log.Adds action next := by
  obtain ⟨manager, steps, rfl⟩ := step_eq_some.mp stepped
  cases steps with
  | received | ticked | shutdown => exact adds_cause rfl rfl _
  | sent waits | broadcast waits =>
    obtain ⟨turn, present, -⟩ := valid.within waits (by simp) (by simp)
    exact adds_enqueued present (by rw [waits]; rfl) _ _ _ _
  | exhausted | forwarded | iterated => exact ⟨(List.append_nil _).symm, (List.append_nil _).symm⟩

/-- What the log says about the whole run. -/
theorem runs_valid {actions : List ManagerAction} (ran : runs step start actions = some log) :
    log.Valid ∧ log.turns.map Turn.cause = actions.filterMap ManagerAction.cause ∧
      (log.turns.flatMap Turn.dispatches).map Dispatch.action = actions.filter ManagerAction.isEnqueue := by
  refine runs_history (P := fun actions log => log.Valid ∧
    log.turns.map Turn.cause = actions.filterMap ManagerAction.cause ∧
      (log.turns.flatMap Turn.dispatches).map Dispatch.action = actions.filter ManagerAction.isEnqueue)
    ⟨valid_start, rfl, rfl⟩ ?_ ran
  rintro actions action here next - ⟨valid, causes, dispatches⟩ stepped
  have adds := valid.adds stepped
  refine ⟨valid.step stepped, ?_, ?_⟩
  · rw [adds.causes, causes, List.filterMap_append]
  · rw [adds.dispatches, dispatches, List.filter_append]

/-- The log has no effect on the manager. -/
theorem exists_run {actions : List ManagerAction} (before : Logged) {manager : Manager}
    (ran : runs Manager.step before.manager actions = some manager) :
    ∃ log, runs step before actions = some log ∧ log.manager = manager := by
  induction actions generalizing before with
  | nil =>
    cases ran
    exact ⟨before, rfl, rfl⟩
  | cons action rest ih =>
    obtain ⟨next, first, ran⟩ := runs_cons_eq_some.mp ran
    have recorded : (before.record action next).manager = next := by
      unfold record
      split <;> rfl
    rw [← recorded] at ran
    obtain ⟨log, later, same⟩ := ih (before.record action next) ran
    refine ⟨log, runs_cons_eq_some.mpr ⟨before.record action next, ?_, later⟩, same⟩
    rw [step, first]
    rfl

theorem Valid.relayed (valid : log.Valid) {turn : Turn} (member : turn ∈ log.turns) {origin : PeerId}
    {txs : List Transaction} (caused : turn.cause = .event (.message origin (.transactions txs))) (id : PeerId) :
    (id = origin ∨ turn.registered.lookup id = none → turn.attempts id = []) ∧
      ∀ sender, turn.registered.lookup id = some sender → id ≠ origin →
        (turn.attempts id = [] ∧ ¬ log.Finished turn) ∨
          ∃ isOk, turn.attempts id = [⟨id, sender, .transactions txs, isOk⟩] := by
  have sound := valid.sound member
  have wanted : addressed turn.cause id = if id = origin then none else some (.transactions txs) := by
    rw [caused]
    rfl
  refine ⟨?_, fun sender known other => ?_⟩
  · rintro (same | absent)
    · exact sound.attempts_eq_nil (.inr (wanted.trans (if_pos same)))
    · exact sound.attempts_eq_nil (.inl absent)
  · rw [if_neg other] at wanted
    rcases sound.attempts_cases id with nothing | ⟨dispatch, sent, rfl, once⟩
    · refine .inl ⟨nothing, fun finished => ?_⟩
      obtain ⟨dispatch, sent, rfl⟩ := (valid.complete_of_finished finished).all id sender _ known wanted
      exact Turn.attempts_ne_nil sent nothing
    · obtain ⟨registered, message⟩ := sound.routed dispatch sent
      have sameSender := Option.some.inj (registered.symm.trans known)
      have sameMessage := Option.some.inj (message.symm.trans wanted)
      exact .inr ⟨dispatch.isOk, by rw [once, ← sameSender, ← sameMessage]⟩

theorem Valid.targeted (valid : log.Valid) {turn : Turn} (member : turn ∈ log.turns) {peerId : PeerId}
    {message : Message} (targets : turn.cause.Targets peerId message) {dispatch : Dispatch}
    (sent : dispatch ∈ turn.dispatches) :
    dispatch.peerId = peerId ∧ dispatch.message = message ∧
      turn.registered.lookup peerId = some dispatch.sender := by
  obtain ⟨known, wanted⟩ := (valid.sound member).routed dispatch sent
  rw [targets.addressed] at wanted
  split at wanted
  · rename_i same
    cases wanted
    exact ⟨same, rfl, same ▸ known⟩
  · cases wanted

theorem Valid.silent (valid : log.Valid) {front middle rest : List Turn} {turn later : Turn} {id : PeerId}
    (split : log.turns = front ++ turn :: (middle ++ later :: rest)) (drops : turn.Drops id)
    (unconnected : ∀ other ∈ middle, ∀ sender, other.cause ≠ .event (.connected id sender)) :
    ∀ dispatch ∈ later.dispatches, dispatch.peerId ≠ id := by
  rintro dispatch sent rfl
  have dropped := (valid.sound (show turn ∈ log.turns by simp [split])).remaining_of_drops drops
  have chained := valid.chained
  rw [split] at chained
  have absent := chained.behind.absent dropped unconnected
  have known := ((valid.sound (show later ∈ log.turns by simp [split])).routed dispatch sent).1
  cases known.symm.trans absent

end Logged

/-- Every run of the manager is routed, whatever the order of its loops and whichever sends fail. -/
theorem manager_routes {actions : List ManagerAction} {manager : Manager}
    (ran : runs Manager.step .new actions = some manager) :
    ∃ log, runs Logged.step .start actions = some log ∧ log.manager = manager ∧ Routed actions log := by
  obtain ⟨log, logged, same⟩ := Logged.exists_run .start ran
  obtain ⟨valid, causes, ordered⟩ := Logged.runs_valid logged
  refine ⟨log, logged, same, causes, ordered, ?_, ?_, ?_, ?_⟩
  · exact fun turn member origin txs caused id => valid.relayed member caused id
  · exact fun turn member peerId message targets dispatch sent => valid.targeted member targets sent
  · rintro turn member dispatch sent pong
    have wanted := ((valid.sound member).routed dispatch sent).2
    rw [pong] at wanted
    exact addressed_eq_pong wanted
  · exact fun front turn middle later rest id split drops unconnected => valid.silent split drops unconnected

/-- Two peers join, the first one sends transactions, and the channel of the second one is closed. A message for
the second one is then dropped. -/
def sampleRouting : List ManagerAction := [
  .received (some (.connected ⟨1⟩ ⟨⟨1⟩⟩)),
  .received (some (.connected ⟨2⟩ ⟨⟨2⟩⟩)),
  .received (some (.message ⟨1⟩ (.transactions []))),
  .iterated [(⟨2⟩, ⟨⟨2⟩⟩), (⟨1⟩, ⟨⟨1⟩⟩)],
  .enqueued ⟨⟨2⟩⟩ (.transactions []) false,
  .received (some (.sendMessage ⟨2⟩ .getChainHead)),
  .received (some (.message ⟨1⟩ .ping)),
  .enqueued ⟨⟨1⟩⟩ .pong true]

theorem manager_routes_relay :
    ∃ log, runs Logged.step .start sampleRouting = some log ∧ Routed sampleRouting log := by
  have possible : (runs Manager.step .new sampleRouting).isSome = true := by decide +kernel
  obtain ⟨manager, ran⟩ := Option.isSome_iff_exists.mp possible
  obtain ⟨log, logged, -, routed⟩ := manager_routes ran
  exact ⟨log, logged, routed⟩

end MiniEthNode
