import MiniEthNode.Networking.Consistency
import MiniEthNode.Networking.Requests

namespace MiniEthNode
open Rust

/-- The block of a message to the processor, with the peer that sent it. -/
def ProcessorMessage.pending : ProcessorMessage → Option PendingBlock
  | newBlock block peerId => some ⟨block, peerId⟩
  | getAccountState _ | shutdown => none

def NetworkEvent.pending : NetworkEvent → Option PendingBlock
  | newBlock block peerId => some ⟨block, peerId⟩
  | getAccountState .. | getChainHead _ => none

/-- A message gets into the queue of the processor. -/
def NodeAction.submits : NodeAction → Option ProcessorMessage
  | .adapter (.submitted message true) => some message
  | .finished true => some .shutdown
  | _ => none

/-- The blocks that got into the queue of the processor. -/
def blocksSubmitted (actions : List NodeAction) : List PendingBlock :=
  (actions.filterMap NodeAction.submits).filterMap ProcessorMessage.pending

theorem blocksSubmitted_append (first second : List NodeAction) :
    blocksSubmitted (first ++ second) = blocksSubmitted first ++ blocksSubmitted second := by
  simp [blocksSubmitted]

/-- What the processor answers once it has worked off the blocks. -/
def AnswersAfter (host : Host) (processor : BlockProcessor) (blocks : List PendingBlock) (address : Address)
    (response : Except ProcessorError Account) : Prop :=
  ∃ deliveries after, deliverAll host processor blocks = some (deliveries, after) ∧
    respond after address = some response

namespace Node
variable {host : Host} {chainId : U64} {processor : BlockProcessor} {node next : Node} {action : NodeAction}
  {actions : List NodeAction}

/-- Only the adapter and the end of the main task put messages into the queue of the processor. -/
theorem step_submits (stepped : node.step host chainId action = some next) (other : action ≠ .processed) :
    next.requests.items = node.requests.items ++ action.submits.toList := by
  have steps := step_steps stepped
  cases action with
  | adapter own =>
    cases stepAdapter_adapterSteps stepped with
    | submitted _ sent => exact sent
    | closed | received | unsubmitted | answered | dropped | readHead | replied | unreplied =>
      exact (List.append_nil _).symm
  | finished isOk =>
    obtain ⟨_, requests, sent, rfl⟩ := finish_sends stepped
    cases isOk <;> exact sent
  | processed => exact absurd rfl other
  | accepted =>
    obtain ⟨_, stepped⟩ := Option.ite_none_right_eq_some.mp stepped
    obtain ⟨counter, _, rfl⟩ := Option.map_eq_some_iff.mp stepped
    exact (List.append_nil _).symm
  | connection peerId own =>
    cases steps with
    | outside | took | emitted | unemitted => exact (List.append_nil _).symm
    | aside noConnection => exact absurd rfl (noConnection peerId own)
  | manager own =>
    cases steps with
    | received | ticked | iterated | shutdown | enqueued | unqueued | forwarded | unforwarded =>
      exact (List.append_nil _).symm
    | aside _ noManager => exact absurd rfl (noManager own)
  | signalled =>
    obtain ⟨_, same⟩ := Option.ite_none_left_eq_some.mp stepped
    cases same
    exact (List.append_nil _).symm
  | unlistened =>
    obtain ⟨_, same⟩ := Option.ite_none_right_eq_some.mp stepped
    cases same
    exact (List.append_nil _).symm

/-- A message that the processor does not come back from. -/
def Panics (host : Host) (processor : BlockProcessor) : ProcessorMessage → Prop
  | .newBlock block peerId => deliver host processor ⟨block, peerId⟩ = none
  | .getAccountState _ => False
  | .shutdown => Exec.final (BlockProcessor.tryDrain host processor) = none

/-- The ways in which the processor works off one message. -/
inductive ProcessorSteps (host : Host) (node : Node) : Node → Prop
  | delivered {block peerId delivery after} {rest : Channel ProcessorMessage 256} :
      node.requests.items = .newBlock block peerId :: rest.items →
      deliver host node.processor ⟨block, peerId⟩ = some (delivery, after) →
      ProcessorSteps host node { node with requests := rest, processor := after }
  | answered {address response} {rest : Channel ProcessorMessage 256} :
      node.requests.items = .getAccountState address :: rest.items →
      respond node.processor address = some response →
      ProcessorSteps host node { node with requests := rest, response := some response }
  | stopped {after} {rest : Channel ProcessorMessage 256} : node.requests.items = .shutdown :: rest.items →
      Exec.final (BlockProcessor.tryDrain host node.processor) = some after →
      ProcessorSteps host node
        { node with requests := rest, processor := { after with pendingMap := ∅ }, processing := false }
  | panicked {message} {rest : Channel ProcessorMessage 256} : node.requests.items = message :: rest.items →
      Panics host node.processor message →
      ProcessorSteps host node { node with requests := rest, processing := false }

theorem stepProcessor_steps (stepped : node.stepProcessor host = some next) :
    node.processing = true ∧ node.ProcessorSteps host next := by
  unfold stepProcessor at stepped
  split at stepped
  · rename_i alive
    refine ⟨alive, ?_⟩
    obtain ⟨⟨message, requests⟩, taken, stepped⟩ := Option.bind_eq_some_iff.mp stepped
    have taken := Channel.recv_eq_some.mp taken
    cases message with
    | newBlock block peerId =>
      dsimp only at stepped
      split at stepped
      · rename_i delivered
        cases stepped
        exact .delivered taken delivered
      · rename_i panics
        cases stepped
        exact .panicked taken panics
    | getAccountState address =>
      dsimp only at stepped
      split at stepped
      · rename_i found
        cases stepped
        exact .answered taken (by rw [respond, found])
      · rename_i found
        cases stepped
        exact .answered taken (by rw [respond, found])
      · rename_i found
        exact absurd found Outcome.okOr_ne_panic
    | shutdown =>
      dsimp only at stepped
      split at stepped
      · rename_i drained
        cases stepped
        exact .stopped taken (by rw [drained, Exec.final])
      · rename_i drained
        cases stepped
        exact .stopped taken (by rw [drained, Exec.final])
      · rename_i drained
        cases stepped
        exact .panicked taken (congrArg Exec.final drained)
  · cases stepped

/-- A running processor is where the messages that it has worked off lead to. -/
def WorkedOff (host : Host) (origin : Node) (actions : List NodeAction) (node : Node) : Prop :=
  node.processing = true → ∃ done deliveries,
    origin.requests.items ++ actions.filterMap NodeAction.submits = done ++ node.requests.items ∧
    .shutdown ∉ done ∧
    deliverAll host origin.processor (done.filterMap ProcessorMessage.pending) = some (deliveries, node.processor)

theorem WorkedOff.step {origin : Node} (workedOff : WorkedOff host origin actions node)
    (stepped : node.step host chainId action = some next) : WorkedOff host origin (actions ++ [action]) next := by
  intro running
  by_cases own : action = .processed
  · subst own
    obtain ⟨alive, steps⟩ := stepProcessor_steps stepped
    obtain ⟨done, deliveries, submitted, running', delivered⟩ := workedOff alive
    have submitted {message : ProcessorMessage} {rest : List ProcessorMessage}
        (taken : node.requests.items = message :: rest) :
        origin.requests.items ++ (actions ++ [NodeAction.processed]).filterMap NodeAction.submits =
          (done ++ [message]) ++ rest := by
      rw [List.filterMap_append, ← List.append_assoc, submitted, taken]
      simp [NodeAction.submits]
    cases steps with
    | @delivered block peerId delivery after rest taken here =>
      refine ⟨_, deliveries ++ [delivery], submitted taken, by simp [running'], ?_⟩
      rw [List.filterMap_append, deliverAll_append, delivered]
      simp [ProcessorMessage.pending, deliverAll, here]
    | answered taken =>
      refine ⟨_, deliveries, submitted taken, by simp [running'], ?_⟩
      rw [List.filterMap_append]
      exact (congrArg _ (List.append_nil _)).trans delivered
    | stopped => cases running
    | panicked => cases running
  · obtain ⟨same, alive⟩ := (step_steps stepped).processor own
    obtain ⟨done, deliveries, submitted, running', delivered⟩ := workedOff (alive ▸ running)
    refine ⟨done, deliveries, ?_, running', same ▸ delivered⟩
    rw [List.filterMap_append, ← List.append_assoc, submitted, step_submits stepped own, List.append_assoc]
    cases told : action.submits <;> simp [told]

theorem runs_workedOff {origin : Node} (ran : runs (step host chainId) origin actions = some node) :
    WorkedOff host origin actions node :=
  runs_history (P := WorkedOff host origin) (fun _ => ⟨[], [], List.append_nil _, List.not_mem_nil, rfl⟩)
    (fun _ _ _ _ _ workedOff stepped => workedOff.step stepped) ran

end Node

section Adapter

/-- The events that the adapter has taken up. -/
def adapterTaken (actions : List AdapterAction) : List NetworkEvent :=
  actions.filterMap fun
    | .received event => event
    | _ => none

/-- The blocks that it has handed to the processor. -/
def adapterBlocks (actions : List AdapterAction) : List PendingBlock :=
  actions.filterMap fun
    | .submitted message true => message.pending
    | _ => none

/-- The block that the adapter has at hand. -/
def AdapterPoint.pending : AdapterPoint → Option PendingBlock
  | .submit block peerId => some ⟨block, peerId⟩
  | .receive | .query .. | .await .. | .readHead _ | .reply .. | .ended => none

/-- The account query that the adapter is busy with. -/
def AdapterPoint.asking : AdapterPoint → Option NetworkEvent
  | .query address peerId | .await address peerId | .reply peerId (.accountState address ..) =>
    some (.getAccountState address peerId)
  | .receive | .submit .. | .readHead _ | .reply .. | .ended => none

variable {actions : List AdapterAction} {point next : AdapterPoint} {action : AdapterAction}

theorem adapterTaken_append (first second : List AdapterAction) :
    adapterTaken (first ++ second) = adapterTaken first ++ adapterTaken second :=
  List.filterMap_append

theorem adapterBlocks_append (first second : List AdapterAction) :
    adapterBlocks (first ++ second) = adapterBlocks first ++ adapterBlocks second :=
  List.filterMap_append

theorem AdapterPoint.Steps.blocks (steps : point.Steps action next)
    (accepted : ∀ message, action ≠ .submitted message false) :
    point.pending.toList ++ (adapterTaken [action]).filterMap NetworkEvent.pending =
      adapterBlocks [action] ++ next.pending.toList := by
  cases steps with
  | @submitted block peerId isOk =>
    cases isOk with
    | true => rfl
    | false => exact (accepted _ rfl).elim
  | closed | newBlock | getAccountState | getChainHead | queried | unqueried | answered | refused | dropped | readHead
  | replied => rfl

theorem AdapterPoint.Steps.asking {event : NetworkEvent} (steps : point.Steps action next)
    (asks : next.asking = some event) :
    point.asking = some event ∧ adapterTaken [action] = [] ∨ adapterTaken [action] = [event] := by
  cases steps with
  | getAccountState =>
    cases asks
    exact .inr rfl
  | queried | answered =>
    cases asks
    exact .inl ⟨rfl, rfl⟩
  | closed | newBlock | getChainHead | submitted | unqueried | refused | dropped | readHead | replied => cases asks

/-- While the processor takes everything, what was taken up is handed on in the same order; and a query is
answered before anything else is taken up. -/
structure Adapting (actions : List AdapterAction) (point : AdapterPoint) : Prop where
  blocks : (∀ message, AdapterAction.submitted message false ∉ actions) →
    (adapterTaken actions).filterMap NetworkEvent.pending = adapterBlocks actions ++ point.pending.toList
  asking : ∀ event, point.asking = some event → ∃ earlier, adapterTaken actions = earlier ++ [event]

theorem Adapting.step (adapting : Adapting actions point) (steps : point.Steps action next) :
    Adapting (actions ++ [action]) next := by
  constructor
  · intro accepted
    have before := adapting.blocks fun message member => accepted message (List.mem_append_left _ member)
    have here := steps.blocks fun message same => accepted message (by simp [same])
    rw [adapterTaken_append, adapterBlocks_append, List.filterMap_append, before, List.append_assoc, here,
      List.append_assoc]
  · intro event asks
    rw [adapterTaken_append]
    rcases steps.asking asks with ⟨before, nothing⟩ | taken
    · obtain ⟨earlier, same⟩ := adapting.asking event before
      exact ⟨earlier, by rw [nothing, List.append_nil, same]⟩
    · exact ⟨adapterTaken actions, by rw [taken]⟩

theorem runs_adapting (ran : runs AdapterPoint.step .receive actions = some point) : Adapting actions point :=
  runs_history (P := Adapting) ⟨fun _ => rfl, fun _ asks => by cases asks⟩
    (fun _ _ _ _ _ adapting stepped => adapting.step (AdapterPoint.step_steps stepped)) ran

end Adapter

/-- The actions of the adapter in a run of the node. -/
def adapterActions (actions : List NodeAction) : List AdapterAction :=
  actions.filterMap fun
    | .adapter action => some action
    | _ => none

theorem mem_adapterActions {actions : List NodeAction} {action : AdapterAction} :
    action ∈ adapterActions actions ↔ NodeAction.adapter action ∈ actions := by
  unfold adapterActions
  rw [List.mem_filterMap]
  constructor
  · rintro ⟨other, member, own⟩
    split at own
    · cases own
      exact member
    · cases own
  · exact fun member => ⟨_, member, rfl⟩

namespace Node
variable {host : Host} {chainId : U64} {processor : BlockProcessor} {node next : Node} {action : NodeAction}
  {actions : List NodeAction}

/-- In a run of the node the adapter runs as it would alone. -/
theorem runs_adapter (ran : runs (step host chainId) (start processor) actions = some node) :
    runs AdapterPoint.step .receive (adapterActions actions) = some node.adapter := by
  refine runs_project (P := fun _ => True) (f := Node.adapter) (fun _ _ _ _ _ => trivial) ?_ ?_ ran trivial
  · intro here action next _ stepped other
    refine (step_steps stepped).apart_adapter ?_
    rintro own rfl
    cases other
  · intro here action next part _ stepped own
    split at own
    · cases own
      exact (stepAdapter_adapterSteps stepped).moved
    · cases own

theorem adapterTaken_eq (actions : List NodeAction) :
    adapterTaken (adapterActions actions) = actions.filterMap NodeAction.takes := by
  unfold adapterTaken adapterActions
  rw [List.filterMap_filterMap]
  refine List.filterMap_congr fun action _ => ?_
  cases action with
  | adapter own => cases own <;> rfl
  | accepted | connection | manager | processed | signalled | unlistened | finished => rfl

theorem adapterBlocks_eq (actions : List NodeAction) :
    adapterBlocks (adapterActions actions) = blocksSubmitted actions := by
  unfold adapterBlocks adapterActions blocksSubmitted
  rw [List.filterMap_filterMap, List.filterMap_filterMap]
  refine List.filterMap_congr fun action _ => ?_
  match action with
  | .adapter (.submitted message true) | .adapter (.submitted message false) | .adapter (.received _)
  | .adapter (.answered _) | .adapter (.readHead _) | .adapter (.replied ..) | .accepted | .connection ..
  | .manager _ | .processed | .signalled | .unlistened | .finished true | .finished false => rfl

/-- Nothing was handed to a processor that is gone. -/
def Unrefused (actions : List NodeAction) : Prop :=
  ∀ message, NodeAction.adapter (.submitted message false) ∉ actions

/-- No account query is on its way to the processor or back. -/
structure Unasked (node : Node) : Prop where
  response : node.response = none
  queries : node.processing = true → node.requests.items.filterMap ProcessorMessage.query = []

/-- The query is in the queue of the processor, with all the blocks that were handed over before it. -/
structure Queued (node : Node) (address : Address) (before after : List ProcessorMessage) : Prop where
  items : node.requests.items = before ++ .getAccountState address :: after
  first : before.filterMap ProcessorMessage.query = []
  last : after.filterMap ProcessorMessage.query = []
  blocks : after.filterMap ProcessorMessage.pending = []

/-- No block is left in the queue of the processor. -/
def Quiet (node : Node) : Prop := node.processing = true → node.requests.items.filterMap ProcessorMessage.pending = []

/-- What the adapter knows of the account that it asks for. -/
structure Answering (host : Host) (processor : BlockProcessor) (actions : List NodeAction) (node : Node) : Prop where
  unasked : (∀ address peerId, node.adapter ≠ .await address peerId) → node.Unasked
  await : ∀ address peerId, node.adapter = .await address peerId → Unrefused actions ∧
    (node.response = none ∧ (node.processing = true → ∃ before after, node.Queued address before after) ∨
      ∃ response, node.response = some response ∧ AnswersAfter host processor (blocksSubmitted actions) address response ∧
        node.Quiet ∧ (node.processing = true → node.requests.items.filterMap ProcessorMessage.query = []))
  reply : ∀ peerId address nonce balance, node.adapter = .reply peerId (.accountState address nonce balance) →
    Unrefused actions ∧ node.Quiet ∧
      ∃ account, AnswersAfter host processor (blocksSubmitted actions) address (.ok account) ∧
        account.nonce = nonce ∧ account.balance = balance

theorem Unrefused.concat (unrefused : Unrefused actions) (other : ∀ message, action ≠ .adapter (.submitted message false)) :
    Unrefused (actions ++ [action]) := by
  intro message member
  rcases List.mem_append.mp member with earlier | last
  · exact unrefused message earlier
  · exact other message (List.mem_singleton.mp last).symm

/-- A processor that is gone does not come back. -/
theorem step_running (stepped : node.step host chainId action = some next) (running : next.processing = true) :
    node.processing = true := by
  by_cases own : action = .processed
  · subst own
    exact (stepProcessor_steps stepped).1
  · exact ((step_steps stepped).processor own).2.symm.trans running

/-- A processor that runs has refused nothing. -/
theorem runs_unrefused (ran : runs (step host chainId) (start processor) actions = some node)
    (running : node.processing = true) : Unrefused actions := by
  refine runs_history (P := fun actions here => here.processing = true → Unrefused actions) ?_ ?_ ran running
  · intro _ message member
    cases member
  · intro actions action here next _ unrefused stepped running
    have alive := step_running stepped running
    refine (unrefused alive).concat ?_
    rintro message rfl
    cases stepAdapter_adapterSteps stepped with
    | unsubmitted _ gone => cases gone.symm.trans alive

/-- What was handed to a processor that runs was taken up before. -/
theorem blocksSubmitted_prefix (ran : runs (step host chainId) (start processor) actions = some node)
    (running : node.processing = true) :
    blocksSubmitted actions <+: (actions.filterMap NodeAction.takes).filterMap NetworkEvent.pending := by
  have blocks := (runs_adapting (runs_adapter ran)).blocks fun message member =>
    runs_unrefused ran running message (mem_adapterActions.mp member)
  rw [adapterTaken_eq, adapterBlocks_eq] at blocks
  rw [blocks]
  exact List.prefix_append _ _

theorem blocksSubmitted_concat (other : ∀ own, action ≠ .adapter own) :
    blocksSubmitted (actions ++ [action]) = blocksSubmitted actions := by
  rw [blocksSubmitted_append]
  cases action with
  | adapter own => exact (other own rfl).elim
  | accepted | connection | manager | processed | signalled | unlistened => exact List.append_nil _
  | finished isOk => cases isOk <;> exact List.append_nil _

/-- Only the adapter hands over blocks. -/
theorem Quiet.step (quiet : node.Quiet) (stepped : node.step host chainId action = some next)
    (adapter : ∀ own, action ≠ .adapter own) : next.Quiet := by
  intro running
  have empty := quiet (step_running stepped running)
  by_cases own : action = .processed
  · subst own
    have popped {message : ProcessorMessage} {rest : Channel ProcessorMessage 256}
        (taken : node.requests.items = message :: rest.items) : rest.items.filterMap ProcessorMessage.pending = [] := by
      rw [taken] at empty
      exact List.filterMap_eq_nil_iff.mpr fun other member =>
        List.filterMap_eq_nil_iff.mp empty other (List.mem_cons_of_mem _ member)
    obtain ⟨_, steps⟩ := stepProcessor_steps stepped
    cases steps <;> exact popped ‹_›
  · rcases (step_apart stepped adapter own).2.2 with kept | added
    · rw [kept]
      exact empty
    · rw [added, List.filterMap_append, empty]
      rfl

/-- The tasks beside the adapter and the processor. -/
theorem Answering.apart (answering : Answering host processor actions node)
    (stepped : node.step host chainId action = some next) (adapter : ∀ own, action ≠ .adapter own)
    (other : action ≠ .processed) : Answering host processor (actions ++ [action]) next := by
  obtain ⟨same, response, requests⟩ := step_apart stepped adapter other
  obtain ⟨_, alive⟩ := (step_steps stepped).processor other
  have queries : next.requests.items.filterMap ProcessorMessage.query =
      node.requests.items.filterMap ProcessorMessage.query := by
    rcases requests with kept | added
    · rw [kept]
    · rw [added, List.filterMap_append]
      exact List.append_nil _
  have unrefused (unrefused : Unrefused actions) : Unrefused (actions ++ [action]) :=
    unrefused.concat fun _ => adapter _
  have queued {address : Address} : (∃ before after, node.Queued address before after) →
      ∃ before after, next.Queued address before after := by
    rintro ⟨before, after, items, first, last, blocks⟩
    rcases requests with kept | added
    · exact ⟨before, after, kept.trans items, first, last, blocks⟩
    · refine ⟨before, after ++ [.shutdown], ?_, first, ?_, ?_⟩
      · rw [added, items, List.append_assoc, List.cons_append]
      · rw [List.filterMap_append, last]
        rfl
      · rw [List.filterMap_append, blocks]
        rfl
  constructor
  · rw [same]
    intro idle
    obtain ⟨absent, none⟩ := answering.unasked idle
    exact ⟨response.trans absent, fun running => queries.trans (none (alive ▸ running))⟩
  · rw [same, response, alive, blocksSubmitted_concat adapter, queries]
    intro address peerId waits
    obtain ⟨accepted, ⟨absent, waiting⟩ | ⟨answer, present, known, quiet, none⟩⟩ := answering.await address peerId waits
    · exact ⟨unrefused accepted, .inl ⟨absent, fun running => queued (waiting running)⟩⟩
    · exact ⟨unrefused accepted, .inr ⟨answer, present, known, quiet.step stepped adapter, none⟩⟩
  · rw [same, blocksSubmitted_concat adapter]
    intro peerId address nonce balance waits
    obtain ⟨accepted, quiet, known⟩ := answering.reply peerId address nonce balance waits
    exact ⟨unrefused accepted, quiet.step stepped adapter, known⟩

/-- The processor goes on without an answer, or is gone. -/
theorem Answering.kept (answering : Answering host processor actions node)
    (stepped : node.step host chainId .processed = some next) (adapter : next.adapter = node.adapter)
    (response : next.response = node.response) (alive : next.processing = true → node.processing = true)
    (queries : next.processing = true → next.requests.items.filterMap ProcessorMessage.query =
      node.requests.items.filterMap ProcessorMessage.query)
    (queued : ∀ address before after, next.processing = true → node.Queued address before after →
      ∃ before' after', next.Queued address before' after') :
    Answering host processor (actions ++ [.processed]) next := by
  have unrefused (unrefused : Unrefused actions) : Unrefused (actions ++ [.processed]) :=
    unrefused.concat (by simp)
  have blocks : blocksSubmitted (actions ++ [.processed]) = blocksSubmitted actions := blocksSubmitted_concat (by simp)
  constructor
  · rw [adapter]
    intro idle
    obtain ⟨absent, none⟩ := answering.unasked idle
    exact ⟨response.trans absent, fun running => (queries running).trans (none (alive running))⟩
  · rw [adapter, response, blocks]
    intro address peerId waits
    obtain ⟨accepted, ⟨absent, waiting⟩ | ⟨answer, present, known, quiet, none⟩⟩ := answering.await address peerId waits
    · refine ⟨unrefused accepted, .inl ⟨absent, fun running => ?_⟩⟩
      obtain ⟨before, after, here⟩ := waiting (alive running)
      exact queued address before after running here
    · exact ⟨unrefused accepted, .inr ⟨answer, present, known, quiet.step stepped (by simp), fun running =>
        (queries running).trans (none (alive running))⟩⟩
  · rw [adapter, blocks]
    intro peerId address nonce balance waits
    obtain ⟨accepted, quiet, known⟩ := answering.reply peerId address nonce balance waits
    exact ⟨unrefused accepted, quiet.step stepped (by simp), known⟩

/-- The processor works off one message. -/
theorem Answering.processed (answering : Answering host processor actions node)
    (workedOff : WorkedOff host (start processor) actions node) (stepped : node.step host chainId .processed = some next) :
    Answering host processor (actions ++ [.processed]) next := by
  obtain ⟨alive, steps⟩ := stepProcessor_steps stepped
  cases steps with
  | delivered taken =>
    refine answering.kept stepped rfl rfl id (fun _ => ?_) ?_
    · rw [taken]
      rfl
    · rintro address before after _ ⟨items, first, last, blocks⟩
      cases before with
      | nil => cases taken.symm.trans items
      | cons message before =>
        obtain ⟨rfl, rest⟩ := List.cons.inj (taken.symm.trans items)
        exact ⟨before, after, rest, first, last, blocks⟩
  | @answered address response rest taken answer =>
    have busy : node.requests.items.filterMap ProcessorMessage.query ≠ [] := by
      rw [taken]
      simp [ProcessorMessage.query]
    -- the adapter waits for this query, since no other one can be in the queue
    by_cases idle : ∀ requested peerId, node.adapter ≠ .await requested peerId
    · exact absurd ((answering.unasked idle).queries alive) busy
    · simp only [not_forall, not_not] at idle
      obtain ⟨requested, peerId, waits⟩ := idle
      obtain ⟨accepted, ⟨absent, waiting⟩ | ⟨_, _, _, _, none⟩⟩ := answering.await requested peerId waits
      · obtain ⟨before, after, items, first, last, blocks⟩ := waiting alive
        cases before with
        | nil =>
          obtain ⟨same, rest'⟩ := List.cons.inj (taken.symm.trans items)
          cases same
          obtain ⟨done, deliveries, submitted, _, delivered⟩ := workedOff alive
          have all : blocksSubmitted (actions ++ [.processed]) = done.filterMap ProcessorMessage.pending := by
            replace submitted := (List.nil_append _).symm.trans submitted
            rw [blocksSubmitted_concat (by simp), blocksSubmitted, submitted, items, List.filterMap_append]
            change _ ++ after.filterMap ProcessorMessage.pending = _
            rw [blocks, List.append_nil]
          refine ⟨fun idle => (idle _ _ waits).elim, ?_, ?_⟩
          · intro address' peerId' waits'
            cases waits.symm.trans waits'
            refine ⟨accepted.concat (by simp), .inr ⟨response, rfl, ⟨deliveries, _, all ▸ delivered, answer⟩,
              fun _ => ?_, fun _ => ?_⟩⟩
            · rw [rest']
              exact blocks
            · rw [rest']
              exact last
          · intro _ _ _ _ waits'
            cases waits.symm.trans waits'
        | cons message before =>
          obtain ⟨rfl, _⟩ := List.cons.inj (taken.symm.trans items)
          cases first
      · exact absurd (none alive) busy
  | stopped | panicked =>
    refine answering.kept stepped rfl rfl ?_ ?_ ?_
    · exact Bool.noConfusion
    · exact Bool.noConfusion
    · exact fun _ _ _ => Bool.noConfusion

theorem stepAdapter_accepted {message : ProcessorMessage}
    (stepped : node.stepAdapter (.submitted message true) = some next) : node.processing = true := by
  obtain ⟨adapter, _, stepped⟩ := Option.bind_eq_some_iff.mp stepped
  dsimp only at stepped
  split at stepped
  · assumption
  · cases stepped

theorem Answering.of_unasked {point : AdapterPoint} (here : node.adapter = point) (unasked : node.Unasked)
    (waits : ∀ address peerId, point ≠ .await address peerId)
    (replies : ∀ peerId address nonce balance, point ≠ .reply peerId (.accountState address nonce balance)) :
    Answering host processor actions node where
  unasked _ := unasked
  await address peerId same := (waits address peerId (here.symm.trans same)).elim
  reply peerId address nonce balance same := (replies peerId address nonce balance (here.symm.trans same)).elim

/-- A step of the adapter. -/
theorem Answering.adapter (answering : Answering host processor actions node) {own : AdapterAction}
    (accepted : node.processing = true → Unrefused actions)
    (stepped : node.stepAdapter own = some next) : Answering host processor (actions ++ [.adapter own]) next := by
  have steps := stepAdapter_adapterSteps stepped
  have point := AdapterPoint.step_steps steps.moved
  -- at every point but one no query is on its way
  have idle {here : AdapterPoint} (before : node.adapter = here)
      (other : ∀ address peerId, here ≠ .await address peerId) : node.Unasked := answering.unasked (before ▸ other)
  generalize before : node.adapter = here at point
  generalize after : next.adapter = there at point
  cases point with
  | closed | newBlock | getAccountState | getChainHead | unqueried | readHead =>
    obtain ⟨absent, quiet⟩ := idle before (by simp)
    cases steps
    exact .of_unasked after ⟨absent, quiet⟩ (by simp) (by simp)
  | submitted =>
    obtain ⟨absent, quiet⟩ := idle before (by simp)
    cases steps with
    | submitted _ sent =>
      refine .of_unasked after ⟨absent, fun running => ?_⟩ (by simp) (by simp)
      rw [sent, List.filterMap_append, quiet running]
      rfl
    | unsubmitted => exact .of_unasked after ⟨absent, quiet⟩ (by simp) (by simp)
  | @queried address peerId =>
    obtain ⟨absent, quiet⟩ := idle before (by simp)
    have alive := stepAdapter_accepted stepped
    have unrefused : Unrefused (actions ++ [.adapter (.submitted (.getAccountState address) true)]) :=
      (accepted alive).concat (by simp)
    cases steps with
    | submitted _ sent =>
      refine ⟨fun other => (other _ _ after).elim, fun _ _ waits => ?_, fun _ _ _ _ waits => ?_⟩
      · cases after.symm.trans waits
        exact ⟨unrefused, .inl ⟨absent, fun _ => ⟨_, [], sent, quiet alive, rfl, rfl⟩⟩⟩
      · cases after.symm.trans waits
  | @answered address peerId account =>
    have same : blocksSubmitted (actions ++ [.adapter (.answered (some (.ok account)))]) = blocksSubmitted actions :=
      (blocksSubmitted_append _ _).trans (List.append_nil _)
    cases steps with
    | answered _ present =>
      obtain ⟨unrefused, ⟨absent, _⟩ | ⟨response, present', known, empty, quiet⟩⟩ :=
        answering.await address peerId before
      · cases absent.symm.trans present
      · cases present.symm.trans present'
        refine ⟨fun _ => ⟨rfl, quiet⟩, fun _ _ waits => ?_, fun _ _ _ _ waits => ?_⟩
        · cases after.symm.trans waits
        · cases after.symm.trans waits
          exact ⟨unrefused.concat (by simp), empty, account, same ▸ known, rfl, rfl⟩
  | @refused address peerId error =>
    cases steps with
    | answered _ present =>
      obtain ⟨_, ⟨absent, _⟩ | ⟨_, _, _, _, quiet⟩⟩ := answering.await address peerId before
      · cases absent.symm.trans present
      · exact .of_unasked after ⟨rfl, quiet⟩ (by simp) (by simp)
  | dropped =>
    cases steps with
    | dropped _ absent gone =>
      refine .of_unasked after ⟨absent, fun running => ?_⟩ (by simp) (by simp)
      cases gone.symm.trans running
  | replied =>
    obtain ⟨absent, quiet⟩ := idle before (by simp)
    cases steps <;> exact .of_unasked after ⟨absent, quiet⟩ (by simp) (by simp)

theorem runs_answering (ran : runs (step host chainId) (start processor) actions = some node) :
    Answering host processor actions node := by
  refine runs_history (P := Answering host processor) ?_ ?_ ran
  · exact ⟨fun _ => ⟨rfl, fun _ => rfl⟩, fun _ _ waits => (by cases waits), fun _ _ _ _ waits => (by cases waits)⟩
  · intro actions action here next first answering stepped
    by_cases adapter : ∃ own, action = .adapter own
    · obtain ⟨own, rfl⟩ := adapter
      exact answering.adapter (runs_unrefused first) stepped
    · by_cases own : action = .processed
      · subst own
        exact answering.processed (runs_workedOff first) stepped
      · exact answering.apart stepped (not_exists.mp adapter) own

end Node

/-- The blocks among the messages of a peer. -/
def blocksOf (peerId : PeerId) (messages : List Message) : List PendingBlock :=
  (messages.filterMap (·.request peerId)).filterMap NetworkEvent.pending

theorem pending_filter (peerId : PeerId) (events : List NetworkEvent) :
    ((events.filterMap NetworkEvent.pending).filter fun block => block.peerId = peerId) =
      (events.filter fun event => event.peerId = peerId).filterMap NetworkEvent.pending := by
  rw [← List.filterMap_eq_filter, ← List.filterMap_eq_filter, List.filterMap_filterMap, List.filterMap_filterMap]
  refine List.filterMap_congr fun event _ => ?_
  cases event with
  | newBlock block sender =>
    by_cases same : sender = peerId <;> simp [NetworkEvent.pending, NetworkEvent.peerId, Option.guard, same]
  | getAccountState address sender =>
    by_cases same : sender = peerId <;> simp [NetworkEvent.pending, NetworkEvent.peerId, Option.guard, same]
  | getChainHead sender =>
    by_cases same : sender = peerId <;> simp [NetworkEvent.pending, NetworkEvent.peerId, Option.guard, same]

/-- A request that was taken up is a message of the peer, with the requests before it taken up before it. -/
theorem requestsReceived_split {peerId : PeerId} {actions : List NodeAction} {events : List NetworkEvent}
    {address : Address} (taken : events ++ [.getAccountState address peerId] <+: requestsReceived peerId actions) :
    ∃ earlier later, receivedMessages (actionsOf peerId actions) = earlier ++ .getAccountState address :: later ∧
      earlier.filterMap (·.request peerId) = events := by
  obtain ⟨rest, same⟩ := taken
  rw [List.append_assoc] at same
  obtain ⟨first, second, whole, before, behind⟩ := List.filterMap_eq_append_iff.mp same.symm
  obtain ⟨skipped, message, later, rfl, silent, asks, _⟩ := List.filterMap_eq_cons_iff.mp behind
  have query : message = .getAccountState address := by
    cases message <;> cases asks
    rfl
  refine ⟨first ++ skipped, later, ?_, ?_⟩
  · rw [whole, query, List.append_assoc]
  · rw [List.filterMap_append, before, List.filterMap_eq_nil_iff.mpr silent, List.append_nil]

/-- An account answer is taken from the state after exactly the blocks that were handed over before it, among
them every block that the peer has sent before its query, and none that it has sent later. -/
theorem account_reply_follows_blocks {host : Host} {chainId : U64} {processor : BlockProcessor}
    {before after : List NodeAction} {node : Node} {peerId : PeerId} {address : Address} {nonce : U64} {balance : U128}
    {isOk : Bool} (ran : runs (Node.step host chainId) (Node.start processor)
      (before ++ .adapter (.replied (.sendMessage peerId (.accountState address nonce balance)) isOk) :: after) =
        some node) :
    (∃ deliveries reached account, deliverAll host processor (blocksSubmitted before) = some (deliveries, reached) ∧
      reached.pipeline.provider.getAccount address = .ok account ∧ account.nonce = nonce ∧ account.balance = balance) ∧
    (∃ earlier later, receivedMessages (actionsOf peerId before) = earlier ++ .getAccountState address :: later ∧
      (blocksSubmitted before).filter (fun block => block.peerId = peerId) = blocksOf peerId earlier) ∧
    ∀ other, (blocksSubmitted before).filter (fun block => block.peerId = other) <+:
      blocksOf other (receivedMessages (actionsOf other before)) := by
  obtain ⟨here, next, first, stepped, _⟩ := runs_split ran
  have waits : here.adapter = .reply peerId (.accountState address nonce balance) := by
    obtain ⟨_, _, waits, same, _⟩ := AdapterPoint.step_replied (Node.stepAdapter_adapterSteps stepped).moved
    cases same
    exact waits
  obtain ⟨unrefused, _, account, ⟨deliveries, reached, delivered, answer⟩, sameNonce, sameBalance⟩ :=
    (Node.runs_answering first).reply peerId address nonce balance waits
  obtain ⟨blocks, asking⟩ := runs_adapting (Node.runs_adapter first)
  rw [waits] at blocks asking
  obtain ⟨events, taken⟩ := asking _ rfl
  have handed : (before.filterMap NodeAction.takes).filterMap NetworkEvent.pending = blocksSubmitted before := by
    rw [← Node.adapterTaken_eq, ← Node.adapterBlocks_eq]
    refine (blocks fun message member => ?_).trans (List.append_nil _)
    exact unrefused message (mem_adapterActions.mp member)
  have own (other : PeerId) : (blocksSubmitted before).filter (fun block => block.peerId = other) =
      (requestsTaken other before).filterMap NetworkEvent.pending := by
    rw [← handed, pending_filter]
    rfl
  refine ⟨⟨deliveries, reached, account, delivered, ?_, sameNonce, sameBalance⟩, ?_, fun other => ?_⟩
  · unfold respond at answer
    split at answer
    · cases answer
      assumption
    · cases answer
    · cases answer
  · have order := prefix_requestsTaken first peerId
    have split : requestsTaken peerId before =
        events.filter (fun event => event.peerId = peerId) ++ [.getAccountState address peerId] := by
      rw [requestsTaken, ← Node.adapterTaken_eq, taken, List.filter_append]
      simp [NetworkEvent.peerId]
    rw [split] at order
    obtain ⟨earlier, later, received, asked⟩ := requestsReceived_split order
    refine ⟨earlier, later, received, ?_⟩
    rw [own, split, blocksOf, asked, List.filterMap_append]
    exact List.append_nil _
  · rw [own]
    exact (prefix_requestsTaken first other).filterMap _

/-- The node with all its tasks does what a processor alone does with some order of the blocks of the peers: those
of each peer from the first one on, in the order in which the peer has sent them. -/
theorem node_refines_processor {host : Host} {chainId : U64} {processor : BlockProcessor} {actions : List NodeAction}
    {node : Node} (ran : runs (Node.step host chainId) (Node.start processor) actions = some node)
    (running : node.processing = true) :
    ∃ blocks deliveries, deliverAll host processor blocks = some (deliveries, node.processor) ∧
      ∀ peerId, blocks.filter (fun block => block.peerId = peerId) <+:
        blocksOf peerId (receivedMessages (actionsOf peerId actions)) := by
  obtain ⟨done, deliveries, submitted, _, delivered⟩ := Node.runs_workedOff ran running
  refine ⟨_, deliveries, delivered, fun peerId => ?_⟩
  have early : done.filterMap ProcessorMessage.pending <+: blocksSubmitted actions := by
    rw [blocksSubmitted, (List.nil_append _).symm.trans submitted]
    exact (List.prefix_append _ _).filterMap _
  refine ((early.trans (Node.blocksSubmitted_prefix ran running)).filter _).trans ?_
  rw [pending_filter]
  exact (prefix_requestsTaken ran peerId).filterMap _

section Sample

/-- A peer sends a block and then asks for the account of its sender, up to the answer. -/
def sampleOwnWrite : List NodeAction :=
  sampleDelivery ++ .processed :: askAccount ++ queryAccount ++ [
    .processed,
    .adapter (.answered (some (.ok sampleAccount)))]

theorem account_reply_follows_blocks_own : ∃ deliveries reached account,
    deliverAll sampleHost (sampleGenesis.processor sampleHost) [⟨sampleFirst.block, samplePeer⟩] =
      some (deliveries, reached) ∧
    reached.pipeline.provider.getAccount sampleSender = .ok account ∧ account.nonce = 1 ∧ account.balance = 733 := by
  have possible : (runs (Node.step sampleHost 1) sampleNode (sampleOwnWrite ++
      [.adapter (.replied (.sendMessage samplePeer (.accountState sampleSender 1 733)) true)])).isSome = true := by
    decide +kernel
  obtain ⟨node, ran⟩ := Option.isSome_iff_exists.mp possible
  exact (account_reply_follows_blocks ran).1

/-- The same run, seen as deliveries to a processor alone. -/
theorem node_refines_processor_own : ∃ node blocks deliveries,
    runs (Node.step sampleHost 1) sampleNode sampleOwnWrite = some node ∧
    deliverAll sampleHost (sampleGenesis.processor sampleHost) blocks = some (deliveries, node.processor) := by
  have possible : ((runs (Node.step sampleHost 1) sampleNode sampleOwnWrite).map Node.processing) = some true := by
    decide +kernel
  obtain ⟨node, ran, running⟩ := Option.map_eq_some_iff.mp possible
  obtain ⟨blocks, deliveries, delivered, _⟩ := node_refines_processor ran running
  exact ⟨node, blocks, deliveries, ran, delivered⟩

end Sample

end MiniEthNode
