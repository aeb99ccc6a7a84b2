import MiniEthNode.Networking.Node
import MiniEthNode.Processor.InPlace

namespace MiniEthNode
open Rust

/-- The message in hand. -/
def ProcessorMessage.point : ProcessorMessage → ProcessorPoint
  | newBlock block peerId => .handle block peerId
  | getAccountState address => .answer address
  | shutdown => .tryDrain true

/-- The shared head that a task reads. -/
def NodeAction.reads : NodeAction → Option ChainHead
  | .connection _ (.readHead head) => some head
  | .adapter (.readHead head) => some head
  | _ => none

/-- What is sent to the adapter for an account. -/
def respond (processor : BlockProcessor) (address : Address) : Option (Except ProcessorError Account) :=
  match processor.pipeline.provider.getAccount address with
  | .ok account => some (.ok account)
  | .err error => some (.error (.execution error))
  | .panic => none

/-- A node whose processor takes one step at a time, between which all the other tasks run. -/
structure DetailedNode where
  node : Node
  /-- Where the task of the processor is. -/
  point : ProcessorPoint
  /-- The blocks that were executed so far. -/
  executed : List Block

inductive DetailedAction where
  /-- A step of any other task. -/
  | node (action : NodeAction)
  | received (message : ProcessorMessage)
  | closed
  | answered (address : Address) (response : Except ProcessorError Account)
  | advanced

namespace DetailedNode

def start (processor : BlockProcessor) : DetailedNode := ⟨Node.start processor, .receive, []⟩

/-- The number of the shared head. -/
def height (detailed : DetailedNode) : Nat := detailed.node.processor.sharedHead.number.toNat

/-- The task of the processor is gone, and the shared head stays as it is. -/
def panicked (detailed : DetailedNode) : DetailedNode :=
  { detailed with node := { detailed.node with processing := false }, point := .ended }

def moved (detailed : DetailedNode) (point : ProcessorPoint) (processor : BlockProcessor) : DetailedNode where
  node := { detailed.node with processor := processor, processing := point.alive }
  point := point
  executed := detailed.executed ++ point.newly

def stepOther (host : Host) (chainId : U64) (detailed : DetailedNode) (action : NodeAction) : Option DetailedNode :=
  match action with
  | .processed => none
  | action =>
    if ∀ head ∈ action.reads, head = detailed.node.processor.sharedHead then
      (detailed.node.step host chainId action).map fun node => { detailed with node := node }
    else none

def stepReceived (detailed : DetailedNode) (message : ProcessorMessage) : Option DetailedNode :=
  match detailed.point with
  | .receive => do
    let (first, rest) ← detailed.node.requests.recv
    if first = message then
      some { detailed with node := { detailed.node with requests := rest }, point := message.point }
    else none
  | _ => none

/-- The channel is closed. The adapter has a sender, so this is after its end. -/
def stepClosed (detailed : DetailedNode) : Option DetailedNode :=
  match detailed.point with
  | .receive =>
    if detailed.node.requests.items = [] ∧ detailed.node.adapter = .ended then
      some { detailed with point := .tryDrain true }
    else none
  | _ => none

def stepAnswered (detailed : DetailedNode) (address : Address) (response : Except ProcessorError Account) :
    Option DetailedNode :=
  match detailed.point with
  | .answer requested =>
    if address = requested ∧ respond detailed.node.processor requested = some response then
      some { detailed with node := { detailed.node with response := some response }, point := .receive }
    else none
  | _ => none

def stepAdvanced (host : Host) (detailed : DetailedNode) : Option DetailedNode :=
  if detailed.point.busy then
    match detailed.point.advance host detailed.node.processor with
    | some (point, processor) => some (detailed.moved point processor)
    | none => some detailed.panicked
  else none

def step (host : Host) (chainId : U64) (detailed : DetailedNode) : DetailedAction → Option DetailedNode
  | .node action => detailed.stepOther host chainId action
  | .received message => if detailed.node.processing then detailed.stepReceived message else none
  | .closed => if detailed.node.processing then detailed.stepClosed else none
  | .answered address response => if detailed.node.processing then detailed.stepAnswered address response else none
  | .advanced => if detailed.node.processing then detailed.stepAdvanced host else none

/-- All that a step can do. -/
inductive Steps (host : Host) (chainId : U64) (detailed : DetailedNode) : DetailedAction → DetailedNode → Prop
  | other {action node} : action ≠ .processed →
      (∀ head ∈ action.reads, head = detailed.node.processor.sharedHead) →
      detailed.node.step host chainId action = some node →
      Steps host chainId detailed (.node action) { detailed with node := node }
  | received {message} {rest : Channel ProcessorMessage 256} : detailed.node.processing = true →
      detailed.point = .receive → detailed.node.requests.items = message :: rest.items →
      Steps host chainId detailed (.received message)
        { detailed with node := { detailed.node with requests := rest }, point := message.point }
  | closed : detailed.node.processing = true → detailed.point = .receive →
      Steps host chainId detailed .closed { detailed with point := .tryDrain true }
  | answered {address response} : detailed.node.processing = true → detailed.point = .answer address →
      respond detailed.node.processor address = some response →
      Steps host chainId detailed (.answered address response)
        { detailed with node := { detailed.node with response := some response }, point := .receive }
  | advanced {point processor} : detailed.node.processing = true → detailed.point.busy = true →
      detailed.point.advance host detailed.node.processor = some (point, processor) →
      Steps host chainId detailed .advanced (detailed.moved point processor)
  | panicked : detailed.node.processing = true → detailed.point.busy = true →
      Steps host chainId detailed .advanced detailed.panicked

section Inversion
variable {host : Host} {chainId : U64} {detailed next : DetailedNode}

theorem step_steps {action : DetailedAction} (stepped : detailed.step host chainId action = some next) :
    detailed.Steps host chainId action next := by
  cases action with
  | node action =>
    change detailed.stepOther host chainId action = some next at stepped
    unfold stepOther at stepped
    split at stepped
    · cases stepped
    · rename_i other
      split at stepped
      · rename_i reads
        obtain ⟨node, moved, rfl⟩ := Option.map_eq_some_iff.mp stepped
        exact .other other reads moved
      · cases stepped
  | received message =>
    obtain ⟨alive, stepped⟩ := Option.ite_none_right_eq_some.mp stepped
    unfold stepReceived at stepped
    split at stepped
    · rename_i waits
      obtain ⟨⟨first, rest⟩, taken, stepped⟩ := Option.bind_eq_some_iff.mp stepped
      obtain ⟨rfl, same⟩ := Option.ite_none_right_eq_some.mp stepped
      cases same
      exact .received alive waits (Channel.recv_eq_some.mp taken)
    · cases stepped
  | closed =>
    obtain ⟨alive, stepped⟩ := Option.ite_none_right_eq_some.mp stepped
    unfold stepClosed at stepped
    split at stepped
    · rename_i waits
      obtain ⟨_, same⟩ := Option.ite_none_right_eq_some.mp stepped
      cases same
      exact .closed alive waits
    · cases stepped
  | answered address response =>
    obtain ⟨alive, stepped⟩ := Option.ite_none_right_eq_some.mp stepped
    unfold stepAnswered at stepped
    split at stepped
    · rename_i waits
      obtain ⟨⟨rfl, answer⟩, same⟩ := Option.ite_none_right_eq_some.mp stepped
      cases same
      exact .answered alive waits answer
    · cases stepped
  | advanced =>
    obtain ⟨alive, stepped⟩ := Option.ite_none_right_eq_some.mp stepped
    obtain ⟨busy, stepped⟩ := Option.ite_none_right_eq_some.mp stepped
    split at stepped
    · rename_i advanced
      cases stepped
      exact .advanced alive busy advanced
    · cases stepped
      exact .panicked alive busy

end Inversion

section Tracked
variable {host : Host} {chainId : U64} {genesis : Genesis} {detailed next : DetailedNode} {action : DetailedAction}

/-- Wherever the task is, it is there with the blocks that were executed. -/
def Tracked (host : Host) (genesis : Genesis) (detailed : DetailedNode) : Prop :=
  detailed.node.processing = true →
    detailed.point.InPlace host genesis detailed.executed detailed.node.processor

theorem Tracked.inPlace (tracked : detailed.Tracked host genesis) (alive : detailed.node.processing = true)
    {point : ProcessorPoint} (waits : detailed.point = point) :
    point.InPlace host genesis detailed.executed detailed.node.processor :=
  waits ▸ tracked alive

/-- The number of the shared head never goes down. -/
theorem Steps.tracked (steps : detailed.Steps host chainId action next) (tracked : detailed.Tracked host genesis) :
    next.Tracked host genesis ∧ detailed.height ≤ next.height := by
  cases steps with
  | other other _ moved =>
    obtain ⟨same, alive⟩ := (Node.step_steps moved).processor other
    unfold Tracked height
    dsimp only
    rw [same, alive]
    exact ⟨tracked, le_rfl⟩
  | @received message _ alive waits =>
    have settled := tracked.inPlace alive waits
    refine ⟨fun _ => ?_, le_rfl⟩
    cases message <;> exact settled
  | closed alive waits | answered alive waits =>
    have settled := tracked.inPlace alive waits
    exact ⟨fun _ => settled, le_rfl⟩
  | advanced alive _ advanced =>
    obtain ⟨place, grown⟩ := (tracked alive).advance advanced
    exact ⟨fun _ => place, grown⟩
  | panicked =>
    refine ⟨fun running => ?_, le_rfl⟩
    cases running

theorem start_tracked (host : Host) (genesis : Genesis) : (start (genesis.processor host)).Tracked host genesis :=
  fun _ => ⟨rfl, .nil⟩

theorem runs_tracked {actions : List DetailedAction} (ran : runs (step host chainId) detailed actions = some next)
    (tracked : detailed.Tracked host genesis) : next.Tracked host genesis ∧ detailed.height ≤ next.height := by
  refine runs_invariant (P := fun here => here.Tracked host genesis ∧ detailed.height ≤ here.height) ?_ ran
    ⟨tracked, le_rfl⟩
  rintro here action next ⟨tracked, above⟩ stepped
  obtain ⟨kept, grown⟩ := (step_steps stepped).tracked tracked
  exact ⟨kept, above.trans grown⟩

/-- What the message in hand will leave is a state that the messages so far lead to. -/
def Heading (host : Host) (genesis : Genesis) (detailed : DetailedNode) : Prop :=
  detailed.node.processing = true → detailed.point.last = false →
    ∀ after, detailed.point.resume host detailed.node.processor = some after → Reach host genesis after

theorem Heading.reach (heading : detailed.Heading host genesis) (alive : detailed.node.processing = true)
    (idle : detailed.point = .receive ∨ ∃ address, detailed.point = .answer address) :
    Reach host genesis detailed.node.processor := by
  rcases idle with waits | ⟨address, waits⟩
  all_goals
    refine heading alive ?_ _ ?_ <;> rw [waits] <;> rfl

theorem Steps.heading (steps : detailed.Steps host chainId action next) (tracked : detailed.Tracked host genesis)
    (heading : detailed.Heading host genesis) : next.Heading host genesis := by
  cases steps with
  | other other _ moved =>
    obtain ⟨same, alive⟩ := (Node.step_steps moved).processor other
    unfold Heading
    dsimp only
    rw [same, alive]
    exact heading
  | @received message _ alive waits =>
    have reach := heading.reach alive (.inl waits)
    intro _ more after left
    cases message with
    | newBlock block peerId =>
      have delivered := deliver_eq_resume host detailed.node.processor block peerId
      obtain ⟨result, ended, rfl⟩ := Option.map_eq_some_iff.mp (delivered.trans left)
      exact reach.next ended
    | getAccountState address =>
      cases left
      exact reach
    | shutdown => cases more
  | closed => intro _ more; cases more
  | answered alive waits =>
    intro _ _ after left
    cases left
    exact heading.reach alive (.inr ⟨_, waits⟩)
  | @advanced point processor alive busy advanced =>
    intro _ more after left
    obtain ⟨same, _⟩ := ProcessorPoint.advance_last advanced
    refine heading alive (same ▸ more) after ?_
    rw [ProcessorPoint.resume_eq busy fun last next waits => Settled.closed (tracked.inPlace alive waits), advanced]
    exact left
  | panicked => intro running; cases running

/-- Between two messages the processor is in a state that these messages lead to. -/
theorem runs_reach {actions : List DetailedAction}
    (ran : runs (step host chainId) (start (genesis.processor host)) actions = some detailed)
    (alive : detailed.node.processing = true) (waits : detailed.point = .receive) :
    Reach host genesis detailed.node.processor := by
  have initial : (start (genesis.processor host)).Heading host genesis := by
    intro _ _ after left
    cases left
    exact .boot (genesis.boot_eq host)
  have kept := runs_invariant (P := fun here => here.Tracked host genesis ∧ here.Heading host genesis)
    (fun here action next holds stepped =>
      ⟨((step_steps stepped).tracked holds.1).1, (step_steps stepped).heading holds.1 holds.2⟩) ran
    ⟨start_tracked host genesis, initial⟩
  exact kept.2.reach alive (.inl waits)

end Tracked

end DetailedNode

end MiniEthNode
