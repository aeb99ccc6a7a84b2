import MiniEthNode.Processor.Replica

namespace MiniEthNode
open Rust

/-- What a node starts from. -/
structure Genesis where
  block : Block
  accounts : HashMap Address Account
  chainId : U64
  totalDifficulty : U128
  number : block.header.number = 0

/-- The start of the node: the shared head that is handed to `new` is that of the genesis block. -/
def Genesis.boot (host : Host) (genesis : Genesis) : Outcome ProcessorError BlockProcessor := do
  let genesisHash ← (hashHeader host genesis.block.header).mapErr .hashing
  BlockProcessor.new host genesis.block genesis.accounts genesis.chainId ⟨0, genesisHash, genesis.totalDifficulty⟩

/-- The states of a processor between two messages. -/
inductive Reach (host : Host) (genesis : Genesis) : BlockProcessor → Prop
  | boot {processor} : genesis.boot host = .ok processor → Reach host genesis processor
  | next {processor message delivery after} : Reach host genesis processor →
      deliver host processor message = some (delivery, after) → Reach host genesis after

theorem deliverAll_cons {host : Host} {processor between : BlockProcessor} {message : PendingBlock}
    {delivery : Delivery} (delivered : deliver host processor message = some (delivery, between))
    (rest : List PendingBlock) :
    deliverAll host processor (message :: rest) =
      (deliverAll host between rest).map fun run => (delivery :: run.1, run.2) := by
  rw [deliverAll, delivered]
  change (deliverAll host between rest).bind _ = _
  cases deliverAll host between rest <;> rfl

theorem deliverAll_append {host : Host} (processor : BlockProcessor) (first second : List PendingBlock) :
    deliverAll host processor (first ++ second) =
      (deliverAll host processor first).bind fun run =>
        (deliverAll host run.2 second).map fun later => (run.1 ++ later.1, later.2) := by
  induction first generalizing processor with
  | nil =>
    change _ = (deliverAll host processor second).map id
    rw [Option.map_id]
    rfl
  | cons message rest ih =>
    cases delivered : deliver host processor message with
    | none =>
      rw [List.cons_append, deliverAll, deliverAll, delivered]
      rfl
    | some step =>
      rw [List.cons_append, deliverAll_cons delivered, deliverAll_cons delivered, ih]
      cases deliverAll host step.2 rest with
      | none => rfl
      | some run => simp [Function.comp_def]

theorem Reach.run {host : Host} {genesis : Genesis} {processor after : BlockProcessor}
    {messages : List PendingBlock} {deliveries : List Delivery} (reach : Reach host genesis processor)
    (ran : deliverAll host processor messages = some (deliveries, after)) : Reach host genesis after := by
  induction messages generalizing processor deliveries with
  | nil =>
    cases ran
    exact reach
  | cons message rest ih =>
    obtain ⟨⟨delivery, between⟩, delivered, ran⟩ := Option.bind_eq_some_iff.mp ran
    obtain ⟨⟨later, last⟩, ran, same⟩ := Option.bind_eq_some_iff.mp ran
    cases same
    exact ih (reach.next delivered) ran

section Boot

theorem setInitialAccounts_eq (entries : List (Address × Account)) {provider : InMemoryProvider}
    (closed : provider.journal = none) :
    BlockProcessor.setInitialAccounts entries provider =
      .ok ((), { provider with state := HashMap.insertAll provider.state entries }) := by
  induction entries generalizing provider with
  | nil => rfl
  | cons entry rest ih =>
    have written : (provider.setAccount entry.1 entry.2).journal = none := by
      simp [InMemoryProvider.setAccount, closed]
    rw [BlockProcessor.setInitialAccounts, Exec.modify_bind, encode_eq, Outcome.mapErr_ok,
      Exec.bind_ok (Exec.lift_ok _ _), ih written]
    simp [InMemoryProvider.setAccount, closed]

def Genesis.head (host : Host) (genesis : Genesis) : ChainHead :=
  ⟨0, headerHash host genesis.block.header, genesis.totalDifficulty⟩

def Genesis.ledger (host : Host) (genesis : Genesis) : Ledger :=
  ⟨InMemoryProvider.withBlock host genesis.block (freshProvider genesis.accounts), genesis.head host,
    genesis.head host⟩

def Genesis.rules (host : Host) (genesis : Genesis) : Rules := ⟨host, genesis.chainId, ⟨100⟩⟩

/-- The processor at the start: all the accounts and the genesis block, and nothing pending. -/
def Genesis.processor (host : Host) (genesis : Genesis) : BlockProcessor where
  pendingMap := ∅
  chainId := genesis.chainId
  chainHead := genesis.head host
  pipeline := ⟨(genesis.ledger host).provider, ⟨⟩, ⟨100⟩⟩
  accounts := genesis.accounts
  sharedHead := genesis.head host
  metrics := ⟨0, 0, 0, 0, 0, 0⟩

theorem Genesis.boot_eq (host : Host) (genesis : Genesis) : genesis.boot host = .ok (genesis.processor host) := by
  have closed : (InMemoryProvider.withBlock host genesis.block InMemoryProvider.default).journal = none := rfl
  have empty : (InMemoryProvider.withBlock host genesis.block InMemoryProvider.default).state = ∅ := rfl
  have accounts := setInitialAccounts_eq (host.iteration.entries genesis.accounts) closed
  rw [empty, Iteration.insertAll_entries] at accounts
  have stored : Exec.mapErr ProcessorError.execution (InMemoryProvider.insertBlock host genesis.block)
      InMemoryProvider.default = .ok ((), InMemoryProvider.withBlock host genesis.block InMemoryProvider.default) := by
    simp only [Exec.mapErr, InMemoryProvider.insertBlock_eq]
  simp only [Genesis.boot, hashHeader_eq, Outcome.mapErr_ok, Outcome.ok_bind, BlockProcessor.new,
    Exec.bind_ok stored, accounts]
  rfl

end Boot

/-- Blocks committed one after the other. -/
inductive Committed (rules : Rules) : Ledger → List Block → Ledger → Prop
  | nil {ledger} : Committed rules ledger [] ledger
  | cons {before between after block output rest} : judge rules before block = .ok (output, between) →
      Committed rules between rest after → Committed rules before (block :: rest) after

theorem Committed.trans {rules : Rules} {before between after : Ledger} {first second : List Block}
    (earlier : Committed rules before first between) (later : Committed rules between second after) :
    Committed rules before (first ++ second) after := by
  induction earlier with
  | nil => exact later
  | cons step _ ih => exact .cons step (ih later)

theorem absorb_committed {rules : Rules} {ledger ledger' : Ledger} {block : Block}
    (absorbed : absorb rules ledger block = some ledger') :
    ∃ blocks, blocks.Sublist [block] ∧ Committed rules ledger blocks ledger' := by
  rcases absorb_cases absorbed with ⟨output, committed⟩ | rfl
  · exact ⟨[block], .refl _, .cons committed .nil⟩
  · exact ⟨[], List.nil_sublist _, .nil⟩

/-- What a drain commits is among what it takes off the queue, in that order. -/
theorem Drains.committed {rules : Rules} {number : U64} {replica after : Replica} {processed : List Block}
    (drains : Drains rules number replica processed after) :
    ∃ blocks, blocks.Sublist processed ∧ Committed rules replica.ledger blocks after.ledger := by
  induction drains with
  | stop => exact ⟨[], List.nil_sublist _, .nil⟩
  | next _ absorbed _ _ ih =>
    obtain ⟨first, taken, here⟩ := absorb_committed absorbed
    obtain ⟨second, among, there⟩ := ih
    exact ⟨first ++ second, taken.append among, here.trans there⟩

theorem Replica.receive_committed {rules : Rules} {replica after : Replica} {message : PendingBlock}
    {delivery : Delivery} (received : replica.receive rules message = some (delivery, after)) :
    ∃ blocks, Committed rules replica.ledger blocks after.ledger := by
  obtain ⟨expected, _, ⟨_, rfl⟩ | ⟨_, processed, _, drains⟩⟩ := Replica.receive_cases received
  · exact ⟨[], .nil⟩
  · obtain ⟨blocks, _, committed⟩ := drains.committed
    exact ⟨blocks, committed⟩

theorem Replica.receiveAll_committed {rules : Rules} {replica : Replica} {messages : List PendingBlock}
    {run : List Delivery × Replica} (received : replica.receiveAll rules messages = some run) :
    ∃ blocks, Committed rules replica.ledger blocks run.2.ledger := by
  induction messages generalizing replica run with
  | nil =>
    cases received
    exact ⟨[], .nil⟩
  | cons message rest ih =>
    obtain ⟨step, first, received⟩ := Option.bind_eq_some_iff.mp received
    obtain ⟨later, last, rfl⟩ := Option.map_eq_some_iff.mp received
    obtain ⟨here, before⟩ := Replica.receive_committed first
    obtain ⟨there, after⟩ := ih last
    exact ⟨here ++ there, before.trans after⟩

section Reached
variable {host : Host} {genesis : Genesis} {processor after : BlockProcessor}

theorem deliver_receive {message : PendingBlock} {delivery : Delivery} (closed : processor.ledger.Closed)
    (delivered : deliver host processor message = some (delivery, after)) :
    processor.replica.receive (processor.rules host) message = some (delivery, after.replica) ∧
      after.rules host = processor.rules host := by
  have same := deliver_observe host message closed
  rw [delivered] at same
  obtain ⟨step, received, seen⟩ := Option.map_eq_some_iff.mp same.symm
  obtain ⟨sameDelivery, seen⟩ := Prod.mk.inj seen
  obtain ⟨sameReplica, kept⟩ := Prod.mk.inj seen
  exact ⟨by rw [received, ← Prod.eta step, sameDelivery, sameReplica], kept.symm⟩

theorem Reach.settled (reach : Reach host genesis processor) :
    processor.ledger.Closed ∧ processor.rules host = genesis.rules host := by
  induction reach with
  | boot booted =>
    rw [genesis.boot_eq] at booted
    cases booted
    exact ⟨rfl, rfl⟩
  | next _ delivered ih =>
    obtain ⟨received, kept⟩ := deliver_receive ih.1 delivered
    have closed := Replica.receive_closed ih.1 received
    exact ⟨closed, kept.trans ih.2⟩

theorem Reach.receive_eq (reach : Reach host genesis processor) (message : PendingBlock) :
    processor.replica.receive (genesis.rules host) message =
      (deliver host processor message).map fun step => (step.1, step.2.replica) := by
  have same := congrArg (Option.map fun step => (step.1, step.2.1)) (deliver_observe host message reach.settled.1)
  simp only [Option.map_map] at same
  rw [← reach.settled.2]
  refine Eq.trans ?_ same.symm
  exact Option.map_id'.symm

theorem Reach.receive {message : PendingBlock} {delivery : Delivery} (reach : Reach host genesis processor)
    (delivered : deliver host processor message = some (delivery, after)) :
    processor.replica.receive (genesis.rules host) message = some (delivery, after.replica) := by
  rw [reach.receive_eq, delivered]
  rfl

/-- The runs of the code from a state that can be reached are those of its replica. -/
theorem Reach.receiveAll_eq (reach : Reach host genesis processor) (messages : List PendingBlock) :
    processor.replica.receiveAll (genesis.rules host) messages =
      (deliverAll host processor messages).map fun run => (run.1, run.2.replica) := by
  have same := congrArg (Option.map fun run => (run.1, run.2.1)) (deliverAll_observe host messages reach.settled.1)
  simp only [Option.map_map] at same
  rw [← reach.settled.2]
  refine Eq.trans ?_ same.symm
  exact Option.map_id'.symm

/-- What holds of the replica at the start and is kept by every message holds of every state. -/
theorem Reach.invariant {P : Replica → Prop} (start : P ⟨genesis.ledger host, ∅⟩)
    (step : ∀ {replica message delivery replica'}, P replica →
      replica.receive (genesis.rules host) message = some (delivery, replica') → P replica')
    (reach : Reach host genesis processor) : P processor.replica := by
  induction reach with
  | boot booted =>
    rw [genesis.boot_eq] at booted
    cases booted
    exact start
  | next reach delivered ih => exact step ih (reach.receive delivered)

/-- The ledger of every state has grown from that of the start by commits alone. -/
theorem Reach.committed (reach : Reach host genesis processor) :
    ∃ blocks, Committed (genesis.rules host) (genesis.ledger host) blocks processor.ledger := by
  refine reach.invariant (P := fun replica =>
    ∃ blocks, Committed (genesis.rules host) (genesis.ledger host) blocks replica.ledger) ⟨[], .nil⟩ ?_
  rintro replica message delivery replica' ⟨blocks, before⟩ received
  obtain ⟨more, after⟩ := Replica.receive_committed received
  exact ⟨blocks ++ more, before.trans after⟩

theorem Reach.run_committed {messages : List PendingBlock} {deliveries : List Delivery}
    (reach : Reach host genesis processor)
    (ran : deliverAll host processor messages = some (deliveries, after)) :
    ∃ blocks, Committed (genesis.rules host) processor.ledger blocks after.ledger := by
  have received := reach.receiveAll_eq messages
  rw [ran] at received
  exact Replica.receiveAll_committed received

end Reached

end MiniEthNode
