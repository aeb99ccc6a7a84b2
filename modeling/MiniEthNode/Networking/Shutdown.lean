import MiniEthNode.Networking.Submission
import MiniEthNode.Processor.Queue

namespace MiniEthNode
open Rust

/-- Between two messages there is nothing left to drain. -/
theorem Reach.tryDrain_eq {host : Host} {genesis : Genesis} {processor : BlockProcessor}
    (reach : Reach host genesis processor) : BlockProcessor.tryDrain host processor = .ok ([], processor) := by
  obtain ⟨expected, next, absent⟩ := reach.sound.gap
  have next : nextNumber host.overflowChecks processor.chainHead.number = some expected := next
  have absent : processor.pendingMap.lookup expected = none := absent
  rw [BlockProcessor.tryDrain, Exec.get_bind, lift_nextNumber_bind, next]
  dsimp only
  cases processor.pendingMap.keys.card with
  | zero => rfl
  | succ fuel =>
    rw [BlockProcessor.drainLoop, Exec.get_bind, absent]
    rfl

namespace Node
variable {host : Host} {chainId : U64} {origin node next : Node} {action : NodeAction} {actions : List NodeAction}

/-- How a processor has come to its end: the messages before the last one are worked off, and the last one is that of
the main task or one that it does not come back from. -/
def Ended (host : Host) (origin : Node) (actions : List NodeAction) (node : Node) : Prop :=
  node.processing = false → ∃ done message deliveries reached,
    done ++ [message] <+: origin.requests.items ++ actions.filterMap NodeAction.submits ∧ .shutdown ∉ done ∧
    deliverAll host origin.processor (done.filterMap ProcessorMessage.pending) = some (deliveries, reached) ∧
    (Panics host reached message ∨
      message = .shutdown ∧ ∃ after, Exec.final (BlockProcessor.tryDrain host reached) = some after ∧
        node.processor = { after with pendingMap := ∅ })

theorem Panics.stuck {processor : BlockProcessor} {message : ProcessorMessage} (panics : Panics host processor message)
    (running : message ≠ .shutdown) (rest : List ProcessorMessage) :
    deliverAll host processor ((message :: rest).filterMap ProcessorMessage.pending) = none := by
  cases message with
  | newBlock block peerId =>
    have panics : deliver host processor ⟨block, peerId⟩ = none := panics
    simp [ProcessorMessage.pending, deliverAll, panics]
  | getAccountState => exact panics.elim
  | shutdown => exact absurd rfl running

theorem Ended.step (ended : Ended host origin actions node) (workedOff : WorkedOff host origin actions node)
    (stepped : node.step host chainId action = some next) : Ended host origin (actions ++ [action]) next := by
  intro gone
  have later : origin.requests.items ++ actions.filterMap NodeAction.submits <+:
      origin.requests.items ++ (actions ++ [action]).filterMap NodeAction.submits := by
    rw [List.filterMap_append, ← List.append_assoc]
    exact List.prefix_append _ _
  by_cases own : action = .processed
  · subst own
    obtain ⟨alive, steps⟩ := stepProcessor_steps stepped
    obtain ⟨done, deliveries, submitted, running, delivered⟩ := workedOff alive
    have taken {message : ProcessorMessage} {rest : Channel ProcessorMessage 256}
        (taken : node.requests.items = message :: rest.items) :
        done ++ [message] <+: origin.requests.items ++ actions.filterMap NodeAction.submits := by
      rw [submitted, taken]
      exact (List.prefix_append_right_inj _).mpr (List.prefix_append [message] _)
    cases steps with
    | delivered | answered => cases alive.symm.trans gone
    | @stopped after rest last drained =>
      exact ⟨done, .shutdown, deliveries, _, (taken last).trans later, running, delivered, .inr ⟨rfl, after, drained, rfl⟩⟩
    | panicked last panics =>
      exact ⟨done, _, deliveries, _, (taken last).trans later, running, delivered, .inl panics⟩
  · obtain ⟨same, alive⟩ := (step_steps stepped).processor own
    obtain ⟨done, message, deliveries, reached, early, running, delivered, how⟩ := ended (alive ▸ gone)
    exact ⟨done, message, deliveries, reached, early.trans later, running, delivered, same ▸ how⟩

theorem runs_ended (ran : runs (step host chainId) origin actions = some node) (running : origin.processing = true) :
    Ended host origin actions node :=
  runs_history (P := Ended host origin) (fun gone => by cases running.symm.trans gone)
    (fun _ _ _ _ first ended stepped => ended.step (runs_workedOff first) stepped) ran

/-- A processor that has come to its end before it is told to has panicked at one of its blocks. -/
theorem Ended.not_survived {processor between after : BlockProcessor} {done submitted : List ProcessorMessage}
    {message : ProcessorMessage} {deliveries deliveries' : List Delivery} {stopped : Prop}
    (early : done ++ [message] <+: submitted)
    (delivered : deliverAll host processor (done.filterMap ProcessorMessage.pending) = some (deliveries, between))
    (how : Panics host between message ∨ message = .shutdown ∧ stopped) (running : ProcessorMessage.shutdown ∉ submitted)
    (survives : deliverAll host processor (submitted.filterMap ProcessorMessage.pending) = some (deliveries', after)) :
    False := by
  have member := early.subset List.mem_concat_self
  rcases how with panics | ⟨rfl, _⟩
  · obtain ⟨rest, rfl⟩ := early
    have stuck := panics.stuck (fun stops => running (stops ▸ member)) rest
    rw [List.append_assoc, List.singleton_append, List.filterMap_append, deliverAll_append, delivered,
      Option.bind_some, stuck] at survives
    cases survives
  · exact running member

/-- Only the main task tells the processor to stop. -/
theorem shutdown_finished (ran : runs (step host chainId) origin actions = some node)
    (stops : ProcessorMessage.shutdown ∈ actions.filterMap NodeAction.submits) : NodeAction.finished true ∈ actions := by
  obtain ⟨action, member, submits⟩ := List.mem_filterMap.mp stops
  unfold NodeAction.submits at submits
  split at submits
  · cases submits
    obtain ⟨before, after, rfl⟩ := List.append_of_mem member
    obtain ⟨here, next, _, stepped, _⟩ := runs_split ran
    have steps := AdapterPoint.step_steps (stepAdapter_adapterSteps stepped).moved
    generalize here.adapter = point at steps
    cases steps
  · exact member
  · cases submits

theorem Closed.of_finish {isOk : Bool} (stepped : node.finish isOk = some next) :
    next.Closed ∧ next.finished = true := by
  obtain ⟨_, closed⟩ := finish_closed stepped
  obtain ⟨_, _, _, rfl⟩ := finish_sends stepped
  exact ⟨⟨closed.stopping, closed.listening, closed.manager, closed.connections⟩, rfl⟩

/-- The steps that are left. -/
theorem Closed.step (closed : node.Closed) (finished : node.finished = true)
    (stepped : node.step host chainId action = some next) :
    (next.Closed ∧ next.finished = true) ∧ (action = .processed ∨ ∃ own, action = .adapter own) := by
  have steps := step_steps stepped
  cases action with
  | accepted =>
    obtain ⟨listening, _⟩ := Option.ite_none_right_eq_some.mp stepped
    cases closed.listening.symm.trans listening
  | connection peerId own =>
    obtain ⟨connection, found, moved⟩ : ∃ connection, node.connections.lookup peerId = some connection ∧
        ∃ point, ConnectionPoint.Steps (context chainId peerId) connection.point own point := by
      cases steps with
      | outside found moved | took found moved | emitted found moved | unemitted found moved =>
        exact ⟨_, found, _, moved⟩
      | aside apart => exact absurd rfl (apart peerId own)
    obtain ⟨point, moved⟩ := moved
    rw [closed.connections peerId connection found] at moved
    cases moved
  | manager own =>
    obtain ⟨manager, moved, _⟩ := Option.bind_eq_some_iff.mp stepped
    replace moved := Manager.step_eq_some.mp moved
    cases moved with
    | received waits | exhausted waits | ticked waits | shutdown waits | sent waits | forwarded waits | iterated waits
    | broadcast waits => cases closed.manager.symm.trans waits
  | adapter own =>
    refine ⟨?_, .inr ⟨own, rfl⟩⟩
    cases stepAdapter_adapterSteps stepped <;>
      exact ⟨⟨closed.stopping, closed.listening, closed.manager, closed.connections⟩, finished⟩
  | processed =>
    refine ⟨?_, .inl rfl⟩
    obtain ⟨_, steps⟩ := stepProcessor_steps stepped
    cases steps <;> exact ⟨⟨closed.stopping, closed.listening, closed.manager, closed.connections⟩, finished⟩
  | signalled =>
    obtain ⟨running, _⟩ := Option.ite_none_left_eq_some.mp stepped
    exact absurd closed.stopping running
  | unlistened =>
    obtain ⟨⟨_, listening⟩, _⟩ := Option.ite_none_right_eq_some.mp stepped
    cases closed.listening.symm.trans listening
  | finished isOk => cases (finish_closed stepped).1.symm.trans finished

theorem Closed.runs (closed : node.Closed) (finished : node.finished = true)
    (ran : Rust.runs (Node.step host chainId) node actions = some next) :
    ∀ action ∈ actions, action = .processed ∨ ∃ own, action = .adapter own := by
  induction actions generalizing node with
  | nil => simp
  | cons action rest ih =>
    obtain ⟨between, stepped, ran⟩ := runs_cons_eq_some.mp ran
    obtain ⟨⟨closed, finished⟩, left⟩ := closed.step finished stepped
    exact List.forall_mem_cons.mpr ⟨left, ih closed finished ran⟩

/-- The main task tells the processor to stop once. -/
theorem finished_once {first second : List NodeAction} {isOk : Bool}
    (ran : Rust.runs (Node.step host chainId) origin (first ++ .finished isOk :: second) = some node) (sent : Bool) :
    NodeAction.finished sent ∉ first := by
  intro member
  obtain ⟨before, after, rfl⟩ := List.append_of_mem member
  rw [List.append_assoc, List.cons_append] at ran
  obtain ⟨here, next, _, stepped, later⟩ := runs_split ran
  obtain ⟨closed, finished⟩ := Closed.of_finish stepped
  rcases closed.runs finished later (.finished isOk) (by simp) with other | ⟨_, other⟩ <;> cases other

/-- The connection waits for its peer or writes to it. -/
def Waits (peerId : PeerId) (node : Node) : Prop :=
  ∃ connection, node.connections.lookup peerId = some connection ∧
    ((∃ state, connection.point = .select state) ∨ ∃ message, connection.point = .write message)

theorem Waits.not_finished {peerId : PeerId} (waits : node.Waits peerId) (isOk : Bool) : node.finish isOk = none := by
  obtain ⟨connection, found, waits⟩ := waits
  by_contra finishes
  obtain ⟨next, finished⟩ := Option.ne_none_iff_exists'.mp finishes
  have gone := (finish_closed finished).2.connections peerId connection found
  rcases waits with ⟨_, waits⟩ | ⟨_, waits⟩ <;> cases gone.symm.trans waits

/-- Nothing but its peer takes a connection out of its loop. -/
theorem Waits.step {peerId : PeerId} (waits : node.Waits peerId) (numbered : node.Numbered)
    (silent : ∀ own, action = .connection peerId own → (∃ message, own = .took (some message)) ∨
      ∃ message, own = .wrote message true)
    (stepped : node.step host chainId action = some next) : next.Waits peerId := by
  obtain ⟨connection, found, waits⟩ := waits
  have steps := (step_steps stepped).connection numbered peerId
  rw [found] at steps
  unfold Waits
  generalize next.connections.lookup peerId = after at steps
  cases steps with
  | @moved own _ point notTaken moved =>
    refine ⟨_, rfl, .inl ?_⟩
    rcases silent own rfl with ⟨message, rfl⟩ | ⟨message, rfl⟩
    · exact absurd rfl (notTaken _)
    · rcases waits with ⟨state, waits⟩ | ⟨other, waits⟩ <;> rw [waits] at moved <;> cases moved
      exact ⟨.established, rfl⟩
  | @took message _ point rest moved _ =>
    refine ⟨_, rfl, ?_⟩
    rcases waits with ⟨state, waits⟩ | ⟨other, waits⟩ <;> rw [waits] at moved <;> cases moved
    cases state with
    | awaitingStatus => exact .inl ⟨.awaitingStatus, rfl⟩
    | established => exact .inr ⟨message, rfl⟩
  | enqueued => exact ⟨_, rfl, waits⟩
  | apart => exact ⟨connection, rfl, waits⟩

theorem Waits.runs {peerId : PeerId} (waits : node.Waits peerId) (numbered : node.Numbered)
    (silent : ∀ own, .connection peerId own ∈ actions → (∃ message, own = .took (some message)) ∨
      ∃ message, own = .wrote message true)
    (ran : Rust.runs (Node.step host chainId) node actions = some next) :
    (∀ isOk, .finished isOk ∉ actions) ∧ next.Waits peerId := by
  induction actions generalizing node with
  | nil =>
    cases ran
    exact ⟨fun _ => List.not_mem_nil, waits⟩
  | cons action rest ih =>
    obtain ⟨between, stepped, ran⟩ := runs_cons_eq_some.mp ran
    have here := waits.step numbered (fun own same => silent own (same ▸ List.mem_cons_self)) stepped
    obtain ⟨later, last⟩ := ih here ((step_steps stepped).numbered numbered)
      (fun own member => silent own (List.mem_cons_of_mem _ member)) ran
    refine ⟨fun isOk finishes => ?_, last⟩
    rcases List.mem_cons.mp finishes with rfl | finishes
    · cases (waits.not_finished isOk).symm.trans stepped
    · exact later isOk finishes

end Node

/-- The first stop in a sequence is where a reader of it stops, if it comes that far. -/
theorem prefix_of_stop {α : Type} {stop last : α} {done first second : List α} (running : stop ∉ done)
    (early : done ++ [last] <+: first ++ stop :: second) : done = first ∧ last = stop ∨ done ++ [last] <+: first := by
  have stops : first ++ [stop] <+: first ++ stop :: second :=
    (List.prefix_append_right_inj first).mpr (List.prefix_append [stop] second)
  rcases List.prefix_or_prefix_of_prefix early stops with below | above
  · rcases List.prefix_concat_iff.mp below with same | below
    · exact .inl ⟨(List.append_singleton_inj.mp same).1, (List.append_singleton_inj.mp same).2⟩
    · exact .inr below
  · rcases List.prefix_concat_iff.mp above with same | above
    · exact .inl ⟨(List.append_singleton_inj.mp same).1.symm, (List.append_singleton_inj.mp same).2.symm⟩
    · exact absurd (above.subset List.mem_concat_self) running

/-- The end of a node is orderly. Once the main task tells the processor to stop, only the adapter and the processor
go on. If the processor survives the blocks that were handed to it before, it is told, and it ends in the state after
exactly these: a block that comes later is lost, and the drain at the end commits nothing. -/
theorem shutdown_settles {host : Host} {chainId : U64} {genesis : Genesis} {processor reached : BlockProcessor}
    {first second : List NodeAction} {isOk : Bool} {node : Node} {deliveries : List Delivery}
    (reach : Reach host genesis processor)
    (ran : runs (Node.step host chainId) (Node.start processor) (first ++ .finished isOk :: second) = some node) :
    (∀ action ∈ second, action = .processed ∨ ∃ own, action = .adapter own) ∧
    (deliverAll host processor (blocksSubmitted first) = some (deliveries, reached) → isOk = true ∧
      (node.processing = false → node.processor = { reached with pendingMap := ∅ })) := by
  obtain ⟨here, next, before, stepped, later⟩ := runs_split ran
  obtain ⟨closed, finished⟩ := Node.Closed.of_finish stepped
  have running' : ProcessorMessage.shutdown ∉ first.filterMap NodeAction.submits :=
    fun stops => Node.finished_once ran true (Node.shutdown_finished before stops)
  refine ⟨closed.runs finished later, fun survives => ?_⟩
  -- A processor that is gone here has panicked at one of the blocks.
  have told : isOk = true := by
    rw [(Node.finish_sends stepped).1]
    by_contra gone
    obtain ⟨done, message, _, between, early, _, delivered, how⟩ :=
      Node.runs_ended before rfl (Bool.eq_false_of_not_eq_true gone)
    exact Node.Ended.not_survived early delivered how running' survives
  refine ⟨told, fun gone => ?_⟩
  obtain ⟨done, message, deliveries', between, early, running, delivered, how⟩ := Node.runs_ended ran rfl gone
  replace early : done ++ [message] <+: first.filterMap NodeAction.submits ++ .shutdown :: second.filterMap NodeAction.submits := by
    rw [List.filterMap_append, told] at early
    exact early
  rcases prefix_of_stop running early with ⟨rfl, rfl⟩ | below
  · cases survives.symm.trans delivered
    have drained := (reach.run survives).tryDrain_eq
    rcases how with panics | ⟨_, after, final, settled⟩
    · rw [Node.Panics, drained] at panics
      cases panics
    · rw [drained] at final
      cases final
      exact settled
  · exact (Node.Ended.not_survived below delivered how running' survives).elim

/-- A peer that stays and says nothing keeps the node from its end, whatever the other tasks do: the listener waits for
the connection, the connection for the peer. The signal to stop, and even the `Disconnect` that the manager sends to the
peer, change nothing about it. -/
theorem shutdown_waits {host : Host} {chainId : U64} {processor : BlockProcessor} {first second : List NodeAction}
    {here node : Node} {peerId : PeerId} {connection : Connection} {state : HandshakeState}
    (before : runs (Node.step host chainId) (Node.start processor) first = some here)
    (found : here.connections.lookup peerId = some connection) (waits : connection.point = .select state)
    (after : runs (Node.step host chainId) here second = some node)
    (silent : ∀ own, .connection peerId own ∈ second → (∃ message, own = .took (some message)) ∨
      ∃ message, own = .wrote message true) :
    ∀ isOk, .finished isOk ∉ second ∧ node.finish isOk = none := by
  have here : here.Waits peerId := ⟨connection, found, .inl ⟨state, waits⟩⟩
  obtain ⟨unfinished, last⟩ := here.runs (Node.runs_numbered before) silent after
  exact fun isOk => ⟨unfinished isOk, last.not_finished isOk⟩

section Sample

/-- A stop while a block waits in the queue of the processor and its peer stays. -/
def sampleStop : List NodeAction := [
  .signalled,
  .unlistened,
  .manager .shutdown,
  .manager (.iterated [(samplePeer, ⟨samplePeer⟩)]),
  .manager (.enqueued ⟨samplePeer⟩ Broadcast.shutdown.message true),
  .connection samplePeer (.took (some Broadcast.shutdown.message)),
  .connection samplePeer (.wrote Broadcast.shutdown.message true)]

/-- The peer goes. -/
def sampleGone : List NodeAction := [
  .connection samplePeer (.received none),
  .connection samplePeer (.emitted (.disconnected samplePeer) false)]

theorem shutdown_settles_pending : ∃ node reached deliveries,
    runs (Node.step sampleHost 1) sampleNode (sampleDelivery ++ (sampleStop ++ sampleGone) ++
      .finished true :: [.processed, .processed]) = some node ∧
    deliverAll sampleHost (sampleGenesis.processor sampleHost) [⟨sampleFirst.block, samplePeer⟩] =
      some (deliveries, reached) ∧ node.processor = { reached with pendingMap := ∅ } := by
  have possible : ((runs (Node.step sampleHost 1) sampleNode (sampleDelivery ++ (sampleStop ++ sampleGone) ++
      .finished true :: [.processed, .processed])).map Node.processing) = some false := by
    decide +kernel
  have taken : (deliverAll sampleHost (sampleGenesis.processor sampleHost)
      [⟨sampleFirst.block, samplePeer⟩]).isSome = true := by
    decide +kernel
  obtain ⟨node, ran, gone⟩ := Option.map_eq_some_iff.mp possible
  obtain ⟨⟨deliveries, reached⟩, survives⟩ := Option.isSome_iff_exists.mp taken
  exact ⟨node, reached, deliveries, ran, survives, ((shutdown_settles sample_reach ran).2 survives).2 gone⟩

theorem shutdown_waits_disconnect : ∃ here node,
    runs (Node.step sampleHost 1) sampleNode sampleDelivery = some here ∧
    runs (Node.step sampleHost 1) here sampleStop = some node ∧ ∀ isOk, node.finish isOk = none := by
  have possible : ((runs (Node.step sampleHost 1) sampleNode sampleDelivery).bind fun here =>
      (runs (Node.step sampleHost 1) here sampleStop).bind fun _ =>
        (here.connections.lookup samplePeer).map Connection.point) = some (.select .established) := by
    decide +kernel
  obtain ⟨here, before, possible⟩ := Option.bind_eq_some_iff.mp possible
  obtain ⟨node, after, possible⟩ := Option.bind_eq_some_iff.mp possible
  obtain ⟨connection, found, waits⟩ := Option.map_eq_some_iff.mp possible
  refine ⟨here, node, before, after, fun isOk => (shutdown_waits before found waits after ?_ isOk).2⟩
  intro own member
  simp only [sampleStop, List.mem_cons, List.not_mem_nil, NodeAction.connection.injEq, reduceCtorEq, false_or, or_false,
    true_and] at member
  rcases member with rfl | rfl
  · exact .inl ⟨_, rfl⟩
  · exact .inr ⟨_, rfl⟩

end Sample

end MiniEthNode
