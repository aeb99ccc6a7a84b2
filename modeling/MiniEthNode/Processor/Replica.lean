import MiniEthNode.Processor.Ledger

namespace MiniEthNode
open Rust

abbrev Queue : Type := HashMap U64 PendingBlock

structure Replica where
  ledger : Ledger
  pending : Queue

def BlockProcessor.replica (processor : BlockProcessor) : Replica := ⟨processor.ledger, processor.pendingMap⟩

/-- A block is committed or leaves the ledger as it is; nothing comes back from a panic. -/
def absorb (rules : Rules) (ledger : Ledger) (block : Block) : Option Ledger :=
  match judge rules ledger block with
  | .ok (_, ledger') => some ledger'
  | .err _ => some ledger
  | .panic => none

/-- The number after a given one, where the plain `+` has it. -/
def nextNumber (overflowChecks : Bool) (number : U64) : Option U64 :=
  (add (ε := ProcessorError) overflowChecks number 1).toOption

/-- The loop that takes consecutive entries off the queue and absorbs each of them. -/
def Replica.drain (rules : Rules) : Nat → U64 → Replica → Option (List Block × Replica)
  | 0, _, replica => some ([], replica)
  | fuel + 1, number, replica =>
    match replica.pending.lookup number with
    | none => some ([], replica)
    | some entry =>
      (absorb rules replica.ledger entry.block).bind fun ledger =>
        (nextNumber rules.host.overflowChecks number).bind fun following =>
          (Replica.drain rules fuel following ⟨ledger, replica.pending.erase number⟩).map fun drained =>
            (entry.block :: drained.1, drained.2)

/-- One message: a stale block is refused, and any other one is queued and the queue drained. -/
def Replica.receive (rules : Rules) (replica : Replica) (message : PendingBlock) : Option (Delivery × Replica) :=
  let number := message.block.header.number
  (nextNumber rules.host.overflowChecks replica.ledger.chainHead.number).bind fun expected =>
    if number ≤ replica.ledger.chainHead.number then
      some (.rejected (.invalidBlockNumber number expected), replica)
    else
      let pending := replica.pending.insert number message
      (Replica.drain rules pending.keys.card expected ⟨replica.ledger, pending⟩).map fun drained =>
        (.drained drained.1, drained.2)

def Replica.receiveAll (rules : Rules) : Replica → List PendingBlock → Option (List Delivery × Replica)
  | replica, [] => some ([], replica)
  | replica, message :: rest => (replica.receive rules message).bind fun step =>
    (step.2.receiveAll rules rest).map fun run => (step.1 :: run.1, run.2)

theorem nextNumber_eq_some {checks : Bool} {number following : U64} (next : nextNumber checks number = some following) :
    following = number + 1 :=
  add_eq_ok (Outcome.toOption_eq_some.mp next)

/-- A plain `+ 1` in a call on the processor. -/
theorem lift_nextNumber_bind {α : Type} (checks : Bool) (number : U64)
    (f : U64 → Exec BlockProcessor ProcessorError α) (processor : BlockProcessor) :
    (Exec.lift (add checks number 1) >>= f) processor =
      match nextNumber checks number with
      | some next => f next processor
      | none => .panic := by
  rw [Exec.lift_bind, nextNumber]
  cases sum : add (ε := ProcessorError) checks number 1 with
  | panic => rfl
  | err error => exact absurd sum add_ne_err
  | ok next => rfl

theorem nextNumber_of_lt {checks : Bool} {number : U64} (fits : number.toNat + 1 < 2 ^ 64) :
    nextNumber checks number = some (number + 1) := by
  rw [nextNumber, add_of_fits fun _ => fits]
  rfl

/-- A block is committed, or the ledger stays as it is. -/
theorem absorb_cases {rules : Rules} {ledger ledger' : Ledger} {block : Block}
    (absorbed : absorb rules ledger block = some ledger') :
    (∃ output, judge rules ledger block = .ok (output, ledger')) ∨ ledger' = ledger := by
  unfold absorb at absorbed
  split at absorbed
  · rename_i output _ committed
    cases absorbed
    exact .inl ⟨output, committed⟩
  · cases absorbed
    exact .inr rfl
  · cases absorbed

theorem absorb_closed {rules : Rules} {ledger ledger' : Ledger} {block : Block} (closed : ledger.Closed)
    (absorbed : absorb rules ledger block = some ledger') : ledger'.Closed := by
  rcases absorb_cases absorbed with ⟨output, committed⟩ | rfl
  · exact judge_closed closed committed
  · exact closed

theorem Replica.drain_of_absent {rules : Rules} {fuel : Nat} {number : U64} {replica : Replica}
    (absent : replica.pending.lookup number = none) : replica.drain rules fuel number = some ([], replica) := by
  cases fuel with
  | zero => rfl
  | succ fuel => rw [Replica.drain, absent]

theorem Replica.drain_of_found (rules : Rules) (replica : Replica) {fuel : Nat} {number : U64} {entry : PendingBlock}
    (found : replica.pending.lookup number = some entry) (enough : replica.pending.keys.card ≤ fuel) :
    ∃ fuel', fuel = fuel' + 1 ∧ (replica.pending.erase number).keys.card ≤ fuel' ∧
      replica.drain rules fuel number =
        (absorb rules replica.ledger entry.block).bind fun ledger =>
          (nextNumber rules.host.overflowChecks number).bind fun following =>
            (Replica.drain rules fuel' following ⟨ledger, replica.pending.erase number⟩).map fun drained =>
              (entry.block :: drained.1, drained.2) := by
  have shrunk := HashMap.keys_card_erase found
  obtain ⟨fuel, rfl⟩ : ∃ fuel', fuel = fuel' + 1 := ⟨fuel - 1, by omega⟩
  refine ⟨fuel, rfl, by omega, ?_⟩
  rw [Replica.drain, found]

/-- A drain, round by round: it ends at a number without an entry. -/
inductive Drains (rules : Rules) : U64 → Replica → List Block → Replica → Prop
  | stop {number replica} : replica.pending.lookup number = none → Drains rules number replica [] replica
  | next {number following replica entry ledger blocks after} : replica.pending.lookup number = some entry →
      absorb rules replica.ledger entry.block = some ledger →
      nextNumber rules.host.overflowChecks number = some following →
      Drains rules following ⟨ledger, replica.pending.erase number⟩ blocks after →
      Drains rules number replica (entry.block :: blocks) after

/-- The number of entries is fuel enough for the loop. -/
theorem Replica.drain_drains {rules : Rules} {fuel : Nat} {number : U64} {replica after : Replica}
    {blocks : List Block} (enough : replica.pending.keys.card ≤ fuel)
    (run : replica.drain rules fuel number = some (blocks, after)) : Drains rules number replica blocks after := by
  induction fuel generalizing number replica blocks with
  | zero =>
    cases found : replica.pending.lookup number with
    | none =>
      cases run
      exact .stop found
    | some entry =>
      have shrunk := HashMap.keys_card_erase found
      omega
  | succ fuel ih =>
    cases found : replica.pending.lookup number with
    | none =>
      rw [Replica.drain_of_absent found] at run
      cases run
      exact .stop found
    | some entry =>
      obtain ⟨rest, same, less, drains⟩ := Replica.drain_of_found rules replica found enough
      obtain rfl : fuel = rest := by omega
      rw [drains] at run
      obtain ⟨ledger, absorbed, run⟩ := Option.bind_eq_some_iff.mp run
      obtain ⟨following, follows, run⟩ := Option.bind_eq_some_iff.mp run
      obtain ⟨later, drained, same⟩ := Option.map_eq_some_iff.mp run
      cases same
      exact .next found absorbed follows (ih less drained)

section Receive
variable {rules : Rules} {replica : Replica} {message : PendingBlock} {expected : U64}

theorem Replica.receive_stale
    (next : nextNumber rules.host.overflowChecks replica.ledger.chainHead.number = some expected)
    (stale : message.block.header.number ≤ replica.ledger.chainHead.number) :
    replica.receive rules message =
      some (.rejected (.invalidBlockNumber message.block.header.number expected), replica) := by
  rw [Replica.receive, next, Option.bind_some, if_pos stale]

theorem Replica.receive_fresh
    (next : nextNumber rules.host.overflowChecks replica.ledger.chainHead.number = some expected)
    (fresh : ¬ message.block.header.number ≤ replica.ledger.chainHead.number) :
    replica.receive rules message =
      (Replica.drain rules (replica.pending.insert message.block.header.number message).keys.card expected
        ⟨replica.ledger, replica.pending.insert message.block.header.number message⟩).map fun drained =>
          (.drained drained.1, drained.2) := by
  rw [Replica.receive, next, Option.bind_some, if_neg fresh]

/-- With nothing pending, a block on top of the head is committed at once. -/
theorem Replica.receive_next {output : ExecutionOutput} {ledger : Ledger} (idle : replica.pending = ∅)
    (committed : judge rules replica.ledger message.block = .ok (output, ledger))
    (room : message.block.header.number.toNat + 1 < 2 ^ 64) :
    replica.receive rules message = some (.drained [message.block], ⟨ledger, ∅⟩) := by
  obtain ⟨number, _⟩ := judge_number committed
  have fresh : ¬ message.block.header.number ≤ replica.ledger.chainHead.number := by
    rw [BitVec.not_le, BitVec.lt_def]
    omega
  have same : replica.ledger.chainHead.number + 1 = message.block.header.number := by bv_omega
  have expected : nextNumber rules.host.overflowChecks replica.ledger.chainHead.number =
      some message.block.header.number := by
    rw [nextNumber_of_lt (by omega), same]
  have found : (replica.pending.insert message.block.header.number message).lookup message.block.header.number =
      some message := Finmap.lookup_insert _
  have emptied : (replica.pending.insert message.block.header.number message).erase message.block.header.number = ∅ := by
    refine Finmap.ext_lookup fun number => ?_
    rw [idle]
    by_cases here : number = message.block.header.number
    · rw [here, Finmap.lookup_erase]
      rfl
    · rw [Finmap.lookup_erase_ne here, HashMap.lookup_insert_ite, if_neg here]
  have absorbed : absorb rules replica.ledger message.block = some ledger := by rw [absorb, committed]
  rw [Replica.receive_fresh expected fresh]
  obtain ⟨fuel, _, _, drains⟩ := Replica.drain_of_found rules
    ⟨replica.ledger, replica.pending.insert message.block.header.number message⟩ found le_rfl
  rw [drains, absorbed, Option.bind_some, nextNumber_of_lt room, Option.bind_some]
  dsimp only
  rw [emptied, Replica.drain_of_absent (by rfl)]
  rfl

/-- All that a message can do. -/
theorem Replica.receive_cases {delivery : Delivery} {after : Replica}
    (received : replica.receive rules message = some (delivery, after)) :
    ∃ expected, nextNumber rules.host.overflowChecks replica.ledger.chainHead.number = some expected ∧
      ((delivery = .rejected (.invalidBlockNumber message.block.header.number expected) ∧ after = replica) ∨
        (replica.ledger.chainHead.number < message.block.header.number ∧
          ∃ processed, delivery = .drained processed ∧
            Drains rules expected ⟨replica.ledger, replica.pending.insert message.block.header.number message⟩
              processed after)) := by
  obtain ⟨expected, next, _⟩ := Option.bind_eq_some_iff.mp received
  refine ⟨expected, next, ?_⟩
  by_cases stale : message.block.header.number ≤ replica.ledger.chainHead.number
  · rw [Replica.receive_stale next stale] at received
    cases received
    exact .inl ⟨rfl, rfl⟩
  · rw [Replica.receive_fresh next stale] at received
    obtain ⟨drained, run, same⟩ := Option.map_eq_some_iff.mp received
    cases same
    exact .inr ⟨BitVec.not_le.mp stale, drained.1, rfl, Replica.drain_drains le_rfl run⟩

end Receive

theorem Drains.closed {rules : Rules} {number : U64} {replica after : Replica} {blocks : List Block}
    (drains : Drains rules number replica blocks after) (closed : replica.ledger.Closed) : after.ledger.Closed := by
  induction drains with
  | stop => exact closed
  | next _ absorbed _ _ ih => exact ih (absorb_closed closed absorbed)

theorem Replica.receive_closed {rules : Rules} {replica after : Replica} {message : PendingBlock}
    {delivery : Delivery} (closed : replica.ledger.Closed)
    (received : replica.receive rules message = some (delivery, after)) : after.ledger.Closed := by
  obtain ⟨expected, _, ⟨_, rfl⟩ | ⟨_, processed, _, drains⟩⟩ := Replica.receive_cases received
  · exact closed
  · exact drains.closed closed

section Refinement
variable (host : Host)

/-- What is seen of a processor between two calls. -/
def BlockProcessor.observe (host : Host) (processor : BlockProcessor) : Replica × Rules :=
  (processor.replica, processor.rules host)

/-- An attempt to process a block changes the ledger as `absorb` does, and the queue not at all. -/
theorem attempt_processBlock (block : Block) {processor : BlockProcessor} (closed : processor.ledger.Closed) :
    (∃ ledger result metrics, absorb (processor.rules host) processor.ledger block = some ledger ∧
      (Exec.attempt (BlockProcessor.processBlock host block) : Exec BlockProcessor ProcessorError _) processor =
        .ok (result, { processor.withLedger ledger with metrics := metrics })) ∨
    (absorb (processor.rules host) processor.ledger block = none ∧
      (Exec.attempt (BlockProcessor.processBlock host block) : Exec BlockProcessor ProcessorError _) processor =
        .panic) := by
  have equation := BlockProcessor.processBlock_eq host block closed
  unfold absorb
  cases judged : judge (processor.rules host) processor.ledger block with
  | ok outcome =>
    rw [judged] at equation
    exact .inl ⟨outcome.2, .ok (), _, rfl, by simp only [Exec.attempt, equation]; rfl⟩
  | err error =>
    rw [judged] at equation
    exact .inl ⟨processor.ledger, .error error, _, rfl, by simp only [Exec.attempt, equation]; rfl⟩
  | panic =>
    rw [judged] at equation
    exact .inr ⟨rfl, by simp only [Exec.attempt, equation]⟩

/-- A call on the processor ends as a step of the replica does, and the rules stay. -/
def Simulates {α : Type} (rules : Rules) :
    Outcome (ProcessorError × BlockProcessor) (α × BlockProcessor) → Option (α × Replica) → Prop
  | .ok (value, after), some (value', replica) => value = value' ∧ after.observe host = (replica, rules)
  | .panic, none => True
  | _, _ => False

theorem Simulates.map {α β : Type} {rules : Rules} {x : Exec BlockProcessor ProcessorError α}
    {processor : BlockProcessor} {step : Option (α × Replica)} (simulates : Simulates host rules (x processor) step)
    (f : α → β) :
    Simulates host rules ((x >>= fun value => pure (f value)) processor)
      (step.map fun result => (f result.1, result.2)) := by
  rw [Exec.bind_run]
  cases ended : x processor with
  | ok result =>
    rw [ended] at simulates
    cases step with
    | none => exact simulates.elim
    | some result' => exact ⟨congrArg f simulates.1, simulates.2⟩
  | err failure =>
    rw [ended] at simulates
    cases step <;> exact simulates.elim
  | panic =>
    rw [ended] at simulates
    cases step with
    | none => trivial
    | some result' => exact simulates.elim

/-- The drain loop of the code is the one of the replica. -/
theorem drainLoop_simulates (fuel : Nat) (number : U64) {processor : BlockProcessor}
    (closed : processor.ledger.Closed) :
    Simulates host (processor.rules host) (BlockProcessor.drainLoop host fuel number processor)
      (processor.replica.drain (processor.rules host) fuel number) := by
  induction fuel generalizing number processor with
  | zero => exact ⟨rfl, rfl⟩
  | succ fuel ih =>
    rw [BlockProcessor.drainLoop, Exec.get_bind, Replica.drain]
    have queue : processor.replica.pending = processor.pendingMap := rfl
    rw [queue]
    cases processor.pendingMap.lookup number with
    | none => exact ⟨rfl, rfl⟩
    | some entry =>
      simp only [Exec.modify_bind]
      have unqueued : Ledger.Closed (BlockProcessor.ledger
        { processor with pendingMap := processor.pendingMap.erase number }) := closed
      rcases attempt_processBlock host entry.block unqueued with
        ⟨ledger, result, metrics, absorbed, attempted⟩ | ⟨absorbed, attempted⟩
      · have here : absorb (processor.rules host) processor.replica.ledger entry.block = some ledger := absorbed
        rw [Exec.bind_ok attempted, lift_nextNumber_bind, here, Option.bind_some, BlockProcessor.rules_host]
        cases nextNumber host.overflowChecks number with
        | none => trivial
        | some following =>
          have later := ih following (absorb_closed unqueued absorbed :
            Ledger.Closed (BlockProcessor.ledger { BlockProcessor.withLedger ledger
              { processor with pendingMap := processor.pendingMap.erase number } with metrics := metrics }))
          exact later.map host (entry.block :: ·)
      · have here : absorb (processor.rules host) processor.replica.ledger entry.block = none := absorbed
        rw [Exec.bind_panic attempted, here]
        trivial

/-- A message is handled as the replica handles it, and the rules stay. -/
theorem deliver_observe (message : PendingBlock) {processor : BlockProcessor} (closed : processor.ledger.Closed) :
    ((deliver host processor message).map fun step => (step.1, step.2.observe host)) =
      (processor.replica.receive (processor.rules host) message).map fun step =>
        (step.1, (step.2, processor.rules host)) := by
  unfold deliver BlockProcessor.handleNewBlock Replica.receive
  rw [Exec.get_bind, lift_nextNumber_bind, BlockProcessor.rules_host]
  have head : processor.replica.ledger.chainHead = processor.chainHead := rfl
  rw [head]
  cases next : nextNumber host.overflowChecks processor.chainHead.number with
  | none => rfl
  | some expected =>
    simp only [BlockProcessor.countMetrics, Exec.modify_bind, Option.bind_some]
    by_cases stale : message.block.header.number ≤ processor.chainHead.number
    · simp only [if_pos stale]
      rfl
    · simp only [if_neg stale, Exec.modify_bind, BlockProcessor.tryDrain, Exec.get_bind, lift_nextNumber_bind, next]
      have queued : Ledger.Closed (BlockProcessor.ledger
        { processor with
          pendingMap := processor.pendingMap.insert message.block.header.number message
          metrics := { processor.metrics with blocksReceived := processor.metrics.blocksReceived + 1 } }) := closed
      have drained := drainLoop_simulates host
        (processor.pendingMap.insert message.block.header.number message).keys.card expected queued
      change Simulates host (processor.rules host) _ (Replica.drain (processor.rules host)
        (processor.replica.pending.insert message.block.header.number message).keys.card expected
        ⟨processor.replica.ledger, processor.replica.pending.insert message.block.header.number message⟩) at drained
      revert drained
      generalize BlockProcessor.drainLoop host _ expected _ = ended
      generalize Replica.drain (processor.rules host) _ expected _ = step
      intro drained
      cases ended with
      | ok result => cases step with
        | none => exact drained.elim
        | some result' =>
          obtain ⟨same, seen⟩ := drained
          simp only [Option.map_some, same, seen]
      | err failure => cases step <;> exact drained.elim
      | panic => cases step with
        | none => rfl
        | some result' => exact drained.elim

/-- A sequence of messages is handled as the replica handles it, and the rules stay. -/
theorem deliverAll_observe (messages : List PendingBlock) {processor : BlockProcessor}
    (closed : processor.ledger.Closed) :
    ((deliverAll host processor messages).map fun run => (run.1, run.2.observe host)) =
      (processor.replica.receiveAll (processor.rules host) messages).map fun run =>
        (run.1, (run.2, processor.rules host)) := by
  induction messages generalizing processor with
  | nil => rfl
  | cons message rest ih =>
    have step := deliver_observe host message closed
    rw [deliverAll, Replica.receiveAll]
    cases received : processor.replica.receive (processor.rules host) message with
    | none =>
      rw [received, Option.map_none, Option.map_eq_none_iff] at step
      rw [step]
      rfl
    | some replied =>
      rw [received, Option.map_some, Option.map_eq_some_iff] at step
      obtain ⟨⟨delivery, between⟩, delivered, seen⟩ := step
      obtain ⟨rfl, seen⟩ := Prod.mk.inj seen
      obtain ⟨same, kept⟩ := Prod.mk.inj seen
      have closed' : between.ledger.Closed := by
        have ledger : between.ledger = replied.2.ledger := congrArg Replica.ledger same
        rw [ledger]
        exact Replica.receive_closed closed received
      have later := congrArg (Option.map fun run => (replied.1 :: run.1, run.2)) (ih closed')
      rw [same, kept] at later
      simp only [Option.map_map] at later
      rw [delivered]
      simp only [Option.bind_some, Option.map_map]
      refine Eq.trans ?_ later
      change Option.map _ ((deliverAll host between rest).bind _) = _
      cases deliverAll host between rest <;> rfl

end Refinement

end MiniEthNode
