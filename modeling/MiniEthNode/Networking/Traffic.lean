import MiniEthNode.Networking.Requests

namespace MiniEthNode
open Rust

/-- What a connection hears from its stream: a message, an error or the end. -/
def ConnectionAction.listens : ConnectionAction → Nat
  | .received _ => 1
  | .unwound | .took _ | .readHead _ | .wrote .. | .emitted .. => 0

/-- The events for the manager that come of an action of a connection. A message may bring an answer as well. -/
def ConnectionAction.load : ConnectionAction → Nat
  | .emitted (.message ..) true => 2
  | .emitted (.connected ..) true | .emitted (.disconnected _) true | .emitted (.sendMessage ..) true => 1
  | .emitted _ false | .received _ | .unwound | .took _ | .readHead _ | .wrote .. => 0

namespace ConnectionPoint

/-- The events that a connection may still send for what it has heard. -/
def due : ConnectionPoint → Nat
  | .select .awaitingStatus | .ended => 0
  | .select .established | .refuse _ | .write _ | .leave => 1
  | .readHead | .reply _ | .register => 2
  | .forward _ => 3

/-- The `Status` pays for `Connected` and `Disconnected`, and a later message for itself and its answer. -/
theorem Steps.load_le {context : ConnectionContext} {point next : ConnectionPoint} {action : ConnectionAction}
    (steps : Steps context point action next) (connected : action ≠ .took none) :
    action.load + next.due ≤ point.due + 2 * action.listens := by
  cases steps with
  | @message state message =>
    unfold handleMessage
    split
    · split <;> simp [ConnectionAction.load, ConnectionAction.listens, due]
    all_goals simp [ConnectionAction.load, ConnectionAction.listens, due]
  | @codecError state | @closed state | @unwound state =>
    cases state <;> simp [ConnectionAction.load, ConnectionAction.listens, due]
  | @outbound state rx =>
    cases rx with
    | none => exact (connected rfl).elim
    | some message => cases state <;> simp [handleOutbound, ConnectionAction.load, ConnectionAction.listens, due]
  | refused | readHead => simp [ConnectionAction.load, ConnectionAction.listens, due]
  | @replied _ isOk | @registered isOk | @forwarded _ isOk | @written _ isOk | @left isOk =>
    cases isOk <;> simp [ConnectionAction.load, ConnectionAction.listens, due]

end ConnectionPoint

namespace NodeAction

def listens : NodeAction → Nat
  | connection _ own => own.listens
  | accepted | manager _ | adapter _ | processed | signalled | unlistened | finished _ => 0

def load : NodeAction → Nat
  | connection _ own => own.load
  | accepted | manager _ | adapter _ | processed | signalled | unlistened | finished _ => 0

def peer : NodeAction → Option PeerId
  | connection peerId _ => some peerId
  | accepted | manager _ | adapter _ | processed | signalled | unlistened | finished _ => none

/-- An event that a connection or the adapter puts into the channel of the manager. -/
def announces : NodeAction → Option PeerEvent
  | connection _ (.emitted event true) | adapter (.replied event true) => some event
  | _ => none

/-- An event that the manager takes. -/
def handles : NodeAction → Option PeerEvent
  | manager (.received event) => event
  | _ => none

/-- An answer of the adapter. -/
def responds : NodeAction → Option PeerEvent
  | adapter (.replied event true) => some event
  | _ => none

/-- An event is an answer of the adapter, or it stands in the load with the request that it carries. -/
theorem announces_le (action : NodeAction) :
    action.announces.toList.length + action.asks.toList.length ≤ action.responds.toList.length + action.load := by
  cases action with
  | connection peerId own =>
    match own with
    | .emitted (.message _ message) true =>
      have one : (message.request peerId).toList.length ≤ 1 := Option.length_toList_le
      change 1 + (message.request peerId).toList.length ≤ 0 + 2
      omega
    | .emitted (.connected ..) true | .emitted (.disconnected _) true | .emitted (.sendMessage ..) true
    | .emitted _ false | .received _ | .unwound | .took _ | .readHead _ | .wrote .. =>
      simp [announces, asks, load, ConnectionAction.load]
  | adapter own =>
    cases own with
    | replied event isOk => cases isOk <;> exact Nat.le_add_right _ _
    | received | submitted | answered | readHead => exact Nat.zero_le _
  | accepted | manager | processed | signalled | unlistened | finished => exact Nat.zero_le _

end NodeAction

/-- How often the connections have heard from their streams. -/
def heardFromPeers (actions : List NodeAction) : Nat := (actions.map NodeAction.listens).sum

/-- How many events the manager has taken. -/
def eventsHandled (actions : List NodeAction) : Nat := (actions.filterMap NodeAction.handles).length

/-- What the adapter still has to answer. -/
def AdapterPoint.due : AdapterPoint → Nat
  | .receive | .ended => 0
  | .submit .. | .query .. | .await .. | .readHead _ | .reply .. => 1

namespace Node
variable {host : Host} {chainId : U64} {node next : Node} {action : NodeAction}

theorem Steps.not_took_none {peerId : PeerId} {own : ConnectionAction}
    (steps : node.Steps chainId (.connection peerId own) next) : own ≠ .took none := by
  cases steps with
  | outside _ _ noTook => exact noTook none
  | took | emitted | unemitted => simp
  | aside noConnection => exact (noConnection _ _ rfl).elim

/-- A step leaves the channel of the manager with one event more or less. -/
theorem step_events (stepped : node.step host chainId action = some next) :
    node.events.items ++ action.announces.toList = action.handles.toList ++ next.events.items := by
  by_cases own : ∃ part, action = .adapter part
  · obtain ⟨part, rfl⟩ := own
    cases stepAdapter_adapterSteps stepped with
    | replied _ _ sent => exact sent.symm
    | closed | received | submitted | unsubmitted | answered | dropped | readHead | unreplied => exact List.append_nil _
  · have other := not_exists.mp own
    cases step_steps stepped with
    | emitted _ _ _ sent => exact sent.symm
    | received _ taken => exact (List.append_nil _).trans taken
    | @outside peerId part _ _ _ _ _ noEvent =>
      have silent : NodeAction.announces (.connection peerId part) = none := by
        cases part with
        | emitted event isOk => exact (noEvent event isOk rfl).elim
        | received | unwound | took | readHead | wrote => rfl
      rw [silent]
      exact List.append_nil _
    | replied => exact (other _ rfl).elim
    | accepted | took | unemitted | ticked | iterated | shutdown | enqueued | unqueued | forwarded | unforwarded =>
      exact List.append_nil _
    | @aside action next noConnection noManager _ _ events =>
      have silent : action.announces = none ∧ action.handles = none := by
        cases action with
        | connection peerId part => exact (noConnection peerId part rfl).elim
        | manager part => exact (noManager part rfl).elim
        | adapter part => exact (other part rfl).elim
        | accepted | processed | signalled | unlistened | finished => exact ⟨rfl, rfl⟩
      rw [silent.1, silent.2, events]
      exact List.append_nil _

theorem step_answers_due (stepped : node.step host chainId action = some next) :
    action.responds.toList.length + next.adapter.due ≤ node.adapter.due + action.takes.toList.length := by
  by_cases own : ∃ part, action = .adapter part
  · obtain ⟨part, rfl⟩ := own
    have point := AdapterPoint.step_steps (stepAdapter_adapterSteps stepped).moved
    generalize node.adapter = here, next.adapter = there at point
    cases point with
    | @replied _ _ isOk => cases isOk <;> simp [NodeAction.responds, NodeAction.takes, AdapterPoint.due]
    | closed | newBlock | getAccountState | getChainHead | submitted | queried | unqueried | answered | refused
    | dropped | readHead => simp [NodeAction.responds, NodeAction.takes, AdapterPoint.due]
  · have silent : action.responds = none := by
      cases action <;> first | rfl | exact (own ⟨_, rfl⟩).elim
    rw [(step_steps stepped).apart_adapter (not_exists.mp own), silent]
    simp

section Runs
variable {processor : BlockProcessor} {actions : List NodeAction}

/-- What was put into the channel of the manager was taken or is still there. -/
theorem runs_events (ran : runs (step host chainId) (start processor) actions = some node) :
    actions.filterMap NodeAction.announces = actions.filterMap NodeAction.handles ++ node.events.items := by
  change (start processor).events.items ++ _ = _
  exact runs_conserved (P := fun _ => True) (fun _ _ _ _ _ => trivial) (fun _ _ _ _ stepped => step_events stepped) ran
    trivial

theorem runs_load (ran : runs (step host chainId) (start processor) actions = some node) :
    (actions.map NodeAction.load).sum ≤ (actions.map fun action => 2 * action.listens).sum := by
  refine sum_map_le_of_each NodeAction.peer fun key => ?_
  cases key with
  | none =>
    refine List.sum_le_sum fun action _ => ?_
    cases action <;> simp [NodeAction.peer, NodeAction.load]
  | some peerId =>
    have paid := runs_budget (fun action => if action.peer = some peerId then action.load else 0)
      (fun action => if action.peer = some peerId then 2 * action.listens else 0) (fun node => (node.pointOf peerId).due)
      (fun here action next numbered stepped => (step_steps stepped).numbered numbered)
      (fun here action next numbered stepped => ?_) ran
      (show (start processor).Numbered from fun _ _ found => by cases found)
    · have nothing : ((start processor).pointOf peerId).due = 0 := rfl
      rw [nothing, Nat.zero_add] at paid
      exact Nat.le_of_add_right_le paid
    · have steps := step_steps stepped
      by_cases own : ∃ part, action = .connection peerId part
      · obtain ⟨part, rfl⟩ := own
        have here : (NodeAction.connection peerId part).peer = some peerId := rfl
        rw [if_pos here, if_pos here]
        exact (steps.pointOf_own numbered).load_le steps.not_took_none
      · have apart : action.peer ≠ some peerId := by
          intro same
          cases action <;> cases same
          exact own ⟨_, rfl⟩
        rw [if_neg apart, if_neg apart, steps.pointOf_other numbered (not_exists.mp own), Nat.zero_add, Nat.add_zero]

/-- Whatever the manager is told, two events at most come of each message, error or end that a peer sends. -/
theorem events_le_heard (ran : runs (step host chainId) (start processor) actions = some node) :
    eventsHandled actions + node.events.items.length ≤ 2 * heardFromPeers actions := by
  have told := congrArg List.length (runs_events ran)
  have asked := congrArg List.length (runs_requests ran)
  have answered := runs_budget (P := fun _ => True) (fun action => action.responds.toList.length)
    (fun action => action.takes.toList.length) (fun node => node.adapter.due) (fun _ _ _ _ _ => trivial)
    (fun _ _ _ _ stepped => step_answers_due stepped) ran trivial
  have idle : (start processor).adapter.due = 0 := rfl
  have each : (actions.map fun action => action.announces.toList.length + action.asks.toList.length).sum ≤
      (actions.map fun action => action.responds.toList.length + action.load).sum :=
    List.sum_le_sum fun action _ => action.announces_le
  have paid := runs_load ran
  rw [List.length_append] at told asked
  rw [length_filterMap_eq_sum] at told asked
  simp only [List.sum_map_add] at each
  rw [length_filterMap_eq_sum NodeAction.takes] at asked
  have double : (actions.map fun action => 2 * action.listens).sum = 2 * heardFromPeers actions :=
    List.sum_map_mul_left ..
  unfold eventsHandled
  omega

end Runs

end Node

end MiniEthNode
