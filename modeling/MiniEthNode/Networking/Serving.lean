import MiniEthNode.Networking.Replies
import MiniEthNode.Networking.Submission

namespace MiniEthNode
open Rust

/-- One request of a server that works off one after the other, with the account that it answers. -/
def serveAccount (host : Host) (processor : BlockProcessor) :
    NetworkEvent → Option (BlockProcessor × List (PeerId × Message))
  | .newBlock block peerId => (deliver host processor ⟨block, peerId⟩).map fun (_, after) => (after, [])
  | .getAccountState address peerId => some (processor,
      ((processor.pipeline.provider.state.lookup address).map fun account =>
        (peerId, .accountState address account.nonce account.balance)).toList)
  | .getChainHead _ => some (processor, [])

/-- An answer of the adapter that tells an account. -/
def NodeAction.tellsAccount : NodeAction → Option (PeerId × Message)
  | .adapter (.replied (.sendMessage peerId (.accountState address nonce balance)) _) =>
    some (peerId, .accountState address nonce balance)
  | _ => none

/-- The accounts that were told to the peers. -/
def accountsTold (actions : List NodeAction) : List (PeerId × Message) := actions.filterMap NodeAction.tellsAccount

theorem accountsTold_concat (actions : List NodeAction) (action : NodeAction) :
    accountsTold (actions ++ [action]) = accountsTold actions ++ action.tellsAccount.toList := by
  rw [accountsTold, List.filterMap_append]
  cases told : action.tellsAccount <;> simp [accountsTold, told]

section Server
variable {host : Host} {processor after : BlockProcessor} {events : List NetworkEvent} {deliveries : List Delivery}

theorem runs_serveAccount
    (delivered : deliverAll host processor (events.filterMap NetworkEvent.pending) = some (deliveries, after)) :
    runs (fun state event => (serveAccount host state event).map Prod.fst) processor events = some after := by
  induction events generalizing processor deliveries with
  | nil =>
    cases delivered
    rfl
  | cons event rest ih =>
    cases event with
    | newBlock block peerId =>
      change deliverAll host processor (⟨block, peerId⟩ :: _) = _ at delivered
      cases here : deliver host processor ⟨block, peerId⟩ with
      | none =>
        rw [deliverAll, here] at delivered
        cases delivered
      | some delivery =>
        rw [deliverAll_cons here] at delivered
        obtain ⟨⟨_, _⟩, later, same⟩ := Option.map_eq_some_iff.mp delivered
        cases same
        refine runs_cons_eq_some.mpr ⟨delivery.2, ?_, ih later⟩
        rw [serveAccount, here]
        rfl
    | getAccountState address peerId => exact runs_cons_eq_some.mpr ⟨processor, rfl, ih delivered⟩
    | getChainHead peerId => exact runs_cons_eq_some.mpr ⟨processor, rfl, ih delivered⟩

/-- The answer to an account query, once the blocks before it are worked off. -/
theorem serves_query {address : Address} {peerId : PeerId} {response : Except ProcessorError Account}
    (answer : AnswersAfter host processor (events.filterMap NetworkEvent.pending) address response) :
    serves (serveAccount host) processor (events ++ [.getAccountState address peerId]) =
      serves (serveAccount host) processor events ++ match response with
        | .ok account => [(peerId, .accountState address account.nonce account.balance)]
        | .error _ => [] := by
  obtain ⟨deliveries, after, delivered, responds⟩ := answer
  rw [serves_append (runs_serveAccount delivered)]
  congr 1
  simp only [serves, serveAccount, List.append_nil]
  unfold respond InMemoryProvider.getAccount at responds
  cases found : after.pipeline.provider.state.lookup address with
  | none =>
    rw [found] at responds
    cases responds
    rfl
  | some account =>
    rw [found] at responds
    cases responds
    rfl

theorem serves_block (block : Block) (peerId : PeerId) :
    serves (serveAccount host) processor (events ++ [.newBlock block peerId]) =
      serves (serveAccount host) processor events := by
  refine serves_silent fun state next answers stepped => ?_
  obtain ⟨_, _, same⟩ := Option.map_eq_some_iff.mp stepped
  cases same
  rfl

theorem serves_head (peerId : PeerId) :
    serves (serveAccount host) processor (events ++ [.getChainHead peerId]) =
      serves (serveAccount host) processor events := by
  refine serves_silent fun state next answers stepped => ?_
  cases stepped
  rfl

end Server

namespace Node
variable {host : Host} {chainId : U64} {processor : BlockProcessor} {node next : Node} {action : NodeAction}
  {actions : List NodeAction}

/-- What the peers were told when the adapter waits at a point: the accounts for all that was taken up, or for all
but the query at hand. A processor that is gone answers nothing any more. -/
structure Serving (host : Host) (processor : BlockProcessor) (actions : List NodeAction) (node : Node) : Prop where
  told : accountsTold actions <+: serves (serveAccount host) processor (actions.filterMap NodeAction.takes)
  idle : node.adapter.asking = none → node.processing = true →
    accountsTold actions = serves (serveAccount host) processor (actions.filterMap NodeAction.takes)
  asking : ∀ event, node.adapter.asking = some event →
    (∀ address peerId, node.adapter = .query address peerId → node.processing = true) →
    ∃ events, actions.filterMap NodeAction.takes = events ++ [event] ∧
      accountsTold actions = serves (serveAccount host) processor events

theorem takes_concat (actions : List NodeAction) (action : NodeAction) :
    (actions ++ [action]).filterMap NodeAction.takes = actions.filterMap NodeAction.takes ++ action.takes.toList := by
  rw [List.filterMap_append]
  cases taken : action.takes <;> simp [taken]

/-- While a query is at hand, the blocks of all the requests before it are in the hands of the processor. -/
theorem blocks_asking (ran : runs (step host chainId) (start processor) actions = some node)
    (unrefused : Unrefused actions) {event : NetworkEvent} (asks : node.adapter.asking = some event)
    {events : List NetworkEvent} (taken : actions.filterMap NodeAction.takes = events ++ [event]) :
    blocksSubmitted actions = events.filterMap NetworkEvent.pending := by
  have blocks := (runs_adapting (runs_adapter ran)).blocks fun message member =>
    unrefused message (mem_adapterActions.mp member)
  have silent : node.adapter.pending = none ∧ event.pending = none := by
    unfold AdapterPoint.asking at asks
    split at asks <;> cases asks
    all_goals
      rename_i here
      rw [here]
      exact ⟨rfl, rfl⟩
  rw [adapterTaken_eq, adapterBlocks_eq, taken, List.filterMap_append, silent.1] at blocks
  simpa [silent.2] using blocks.symm

/-- The other tasks. -/
theorem Serving.apart (serving : Serving host processor actions node)
    (stepped : node.step host chainId action = some next) (other : ∀ own, action ≠ .adapter own) :
    Serving host processor (actions ++ [action]) next := by
  have silent : action.takes = none ∧ action.tellsAccount = none := by
    cases action <;> first | exact ⟨rfl, rfl⟩ | exact (other _ rfl).elim
  have adapter := (step_steps stepped).apart_adapter other
  obtain ⟨told, idle, asking⟩ := serving
  constructor
  · simpa only [takes_concat, accountsTold_concat, silent, Option.toList_none, List.append_nil] using told
  · intro waits running
    rw [adapter] at waits
    simpa only [takes_concat, accountsTold_concat, silent, Option.toList_none, List.append_nil] using
      idle waits (step_running stepped running)
  · intro event asks running
    rw [adapter] at asks running
    simpa only [takes_concat, accountsTold_concat, silent, Option.toList_none, List.append_nil] using
      asking event asks fun address peerId here => step_running stepped (running address peerId here)

theorem Serving.of_idle (waits : node.adapter.asking = none)
    (told : accountsTold actions <+: serves (serveAccount host) processor (actions.filterMap NodeAction.takes))
    (idle : node.processing = true →
      accountsTold actions = serves (serveAccount host) processor (actions.filterMap NodeAction.takes)) :
    Serving host processor actions node := by
  refine ⟨told, fun _ => idle, fun event asks => ?_⟩
  rw [waits] at asks
  cases asks

theorem Serving.of_asking {event : NetworkEvent} {events : List NetworkEvent} (asks : node.adapter.asking = some event)
    (told : accountsTold actions <+: serves (serveAccount host) processor (actions.filterMap NodeAction.takes))
    (taken : actions.filterMap NodeAction.takes = events ++ [event])
    (known : (∀ address peerId, node.adapter = .query address peerId → node.processing = true) →
      accountsTold actions = serves (serveAccount host) processor events) : Serving host processor actions node := by
  refine ⟨told, fun waits => ?_, fun other asks' running => ?_⟩
  · rw [waits] at asks
    cases asks
  · cases asks.symm.trans asks'
    exact ⟨events, taken, known running⟩

/-- The adapter. -/
theorem Serving.adapter (serving : Serving host processor actions node)
    (ran : runs (step host chainId) (start processor) actions = some node) {own : AdapterAction}
    (stepped : node.stepAdapter own = some next) : Serving host processor (actions ++ [.adapter own]) next := by
  have steps := stepAdapter_adapterSteps stepped
  have point := AdapterPoint.step_steps steps.moved
  have processing : next.processing = node.processing := by
    cases steps <;> rfl
  obtain ⟨told, idle, asking⟩ := serving
  have takes := takes_concat actions (.adapter own)
  have tells := accountsTold_concat actions (.adapter own)
  generalize before : node.adapter = here at point
  generalize after : next.adapter = there at point
  rw [before] at idle asking
  cases point with
  | closed | submitted | readHead =>
    replace takes := takes.trans (List.append_nil _)
    replace tells := tells.trans (List.append_nil _)
    refine .of_idle (by rw [after]; rfl) (by rwa [takes, tells]) fun running => ?_
    rw [takes, tells]
    exact idle rfl (processing ▸ running)
  | @newBlock block peerId =>
    replace tells := tells.trans (List.append_nil _)
    have same := (congrArg (serves (serveAccount host) processor) takes).trans (serves_block block peerId)
    refine .of_idle (by rw [after]; rfl) (by rwa [same, tells]) fun running => ?_
    rw [same, tells]
    exact idle rfl (processing ▸ running)
  | @getChainHead peerId =>
    replace tells := tells.trans (List.append_nil _)
    have same := (congrArg (serves (serveAccount host) processor) takes).trans (serves_head peerId)
    refine .of_idle (by rw [after]; rfl) (by rwa [same, tells]) fun running => ?_
    rw [same, tells]
    exact idle rfl (processing ▸ running)
  | @getAccountState address peerId =>
    replace tells := tells.trans (List.append_nil _)
    refine .of_asking (by rw [after]; rfl) ?_ takes fun running => ?_
    · rw [takes, tells]
      exact told.trans (prefix_serves (List.prefix_append _ _))
    · rw [tells]
      exact idle rfl (processing ▸ running _ _ after)
  | queried =>
    replace takes := takes.trans (List.append_nil _)
    replace tells := tells.trans (List.append_nil _)
    have alive := stepAdapter_accepted stepped
    obtain ⟨events, taken, known⟩ := asking _ rfl fun _ _ _ => alive
    refine .of_asking (by rw [after]; rfl) (by rwa [takes, tells]) (takes.trans taken) fun _ => ?_
    rw [tells, known]
  | answered =>
    replace takes := takes.trans (List.append_nil _)
    replace tells := tells.trans (List.append_nil _)
    obtain ⟨events, taken, known⟩ := asking _ rfl (by simp)
    refine .of_asking (by rw [after]; rfl) (by rwa [takes, tells]) (takes.trans taken) fun _ => ?_
    rw [tells, known]
  | unqueried =>
    replace takes := takes.trans (List.append_nil _)
    replace tells := tells.trans (List.append_nil _)
    refine .of_idle (by rw [after]; rfl) (by rwa [takes, tells]) fun running => ?_
    cases steps with
    | unsubmitted _ gone => cases gone.symm.trans running
  | dropped =>
    replace takes := takes.trans (List.append_nil _)
    replace tells := tells.trans (List.append_nil _)
    refine .of_idle (by rw [after]; rfl) (by rwa [takes, tells]) fun running => ?_
    cases steps with
    | dropped _ _ gone => cases gone.symm.trans running
  | @refused address peerId error =>
    replace takes := takes.trans (List.append_nil _)
    replace tells := tells.trans (List.append_nil _)
    obtain ⟨events, taken, known⟩ := asking _ rfl (by simp)
    refine .of_idle (by rw [after]; rfl) (by rwa [takes, tells]) fun _ => ?_
    cases steps with
    | answered _ present =>
      obtain ⟨unrefused, ⟨absent, _⟩ | ⟨_, present', answer, _, _⟩⟩ := (runs_answering ran).await address peerId before
      · cases absent.symm.trans present
      · cases present.symm.trans present'
        rw [blocks_asking ran unrefused (by rw [before]; rfl) taken] at answer
        rw [takes, tells, known, taken, serves_query answer, List.append_nil]
  | @replied peerId message isOk =>
    replace takes := takes.trans (List.append_nil _)
    cases message with
    | accountState address nonce balance =>
      obtain ⟨events, taken, known⟩ := asking _ rfl (by simp)
      obtain ⟨unrefused, _, account, answer, rfl, rfl⟩ := (runs_answering ran).reply peerId address nonce balance before
      rw [blocks_asking ran unrefused (by rw [before]; rfl) taken] at answer
      have all : accountsTold (actions ++ [.adapter (.replied (.sendMessage peerId
          (.accountState address account.nonce account.balance)) isOk)]) =
          serves (serveAccount host) processor (actions.filterMap NodeAction.takes) := by
        rw [tells, known, taken, serves_query answer]
        rfl
      refine .of_idle (by rw [after]; rfl) ?_ fun _ => ?_
      · rw [takes, all]
      · rw [takes, all]
    | ping | pong | status | transactions | getBlockHeaders | newBlockHashes | blockHeaders | newBlock | disconnect
    | getAccountState | getChainHead | chainHead =>
      replace tells := tells.trans (List.append_nil _)
      refine .of_idle (by rw [after]; rfl) (by rwa [takes, tells]) fun running => ?_
      rw [takes, tells]
      exact idle rfl (processing ▸ running)

theorem runs_serving (ran : runs (step host chainId) (start processor) actions = some node) :
    Serving host processor actions node := by
  refine runs_history (P := Serving host processor) ?_ ?_ ran
  · exact .of_idle rfl List.prefix_rfl fun _ => rfl
  · intro actions action here next first serving stepped
    by_cases own : ∃ part, action = .adapter part
    · obtain ⟨part, rfl⟩ := own
      exact serving.adapter first stepped
    · exact serving.apart stepped (not_exists.mp own)

end Node

end MiniEthNode
