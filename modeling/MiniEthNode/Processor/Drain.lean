import MiniEthNode.Processor.Queue

namespace MiniEthNode
open Rust

/-- A drain from the number `first` on: one call of `process_block` for each of the consecutive
entries that it takes off the queue, up to a number without an entry. -/
structure Drained (first : Nat) (queue after : Queue) (processed : List Block) : Prop where
  taken : ∀ (i : Nat) block, processed[i]? = some block →
    ∃ entry, queue.lookup (BitVec.ofNat 64 (first + i)) = some entry ∧ entry.block = block
  within : first + processed.length ≤ 2 ^ 64
  left : ∀ number, after.lookup number =
    if first ≤ number.toNat ∧ number.toNat < first + processed.length then none else queue.lookup number
  removed : processed.length + after.keys.card = queue.keys.card
  ended : after.lookup (BitVec.ofNat 64 (first + processed.length)) = none

section Rounds
variable {rules : Rules} {replica after : Replica} {processed : List Block}

theorem Drained.stop {first : Nat} {queue : Queue} (small : first ≤ 2 ^ 64)
    (absent : queue.lookup (BitVec.ofNat 64 first) = none) : Drained first queue queue [] where
  taken i block found := by simp at found
  within := small
  left number := by
    rw [if_neg]
    rw [List.length_nil]
    omega
  removed := Nat.zero_add _
  ended := absent

theorem Drained.next {first : Nat} {queue after : Queue} {entry : PendingBlock} (small : first < 2 ^ 64)
    (found : queue.lookup (BitVec.ofNat 64 first) = some entry)
    (drained : Drained (first + 1) (queue.erase (BitVec.ofNat 64 first)) after processed) :
    Drained first queue after (entry.block :: processed) := by
  have value : (BitVec.ofNat 64 first).toNat = first := by rw [BitVec.toNat_ofNat, Nat.mod_eq_of_lt small]
  have shift (i : Nat) : first + 1 + i = first + (i + 1) := by omega
  have length : (entry.block :: processed).length = processed.length + 1 := rfl
  refine ⟨fun i block present => ?_, ?_, fun number => ?_, ?_, ?_⟩
  · cases i with
    | zero =>
      cases present
      exact ⟨entry, found, rfl⟩
    | succ i =>
      obtain ⟨later, waiting, same⟩ := drained.taken i block present
      rw [shift] at waiting
      exact ⟨later, (lookup_of_erase waiting).2, same⟩
  · rw [length, ← shift]
    exact drained.within
  · rw [drained.left, HashMap.lookup_erase_ite, length]
    by_cases here : number = BitVec.ofNat 64 first
    · rw [here, value, if_neg (by omega), if_pos rfl, if_pos (by omega)]
    · have apart : number.toNat ≠ first := fun same => here (BitVec.eq_of_toNat_eq (same.trans value.symm))
      rw [if_neg here]
      refine if_congr ?_ rfl rfl
      omega
  · have fewer := HashMap.keys_card_erase found
    have rest := drained.removed
    rw [length]
    omega
  · rw [length, ← shift]
    exact drained.ended

/-- The entries lie at or beyond the number that the drain has come to, so it never gets back to 0. -/
theorem Drains.drained {first : Nat} (drains : Drains rules (BitVec.ofNat 64 first) replica processed after)
    (small : first ≤ 2 ^ 64)
    (beyond : ∀ number entry, replica.pending.lookup number = some entry → first ≤ number.toNat) :
    Drained first replica.pending after.pending processed := by
  generalize start : BitVec.ofNat 64 first = number at drains
  induction drains generalizing first with
  | stop absent =>
    rw [← start] at absent
    exact .stop small absent
  | @next _ following replica _ _ _ _ found _ follows _ ih =>
    rw [← start] at found follows
    have less : first < 2 ^ 64 := by
      have bound := beyond _ _ found
      have below := (BitVec.ofNat 64 first).isLt
      omega
    have value : (BitVec.ofNat 64 first).toNat = first := by rw [BitVec.toNat_ofNat, Nat.mod_eq_of_lt less]
    have further : ∀ other waiting, (replica.pending.erase (BitVec.ofNat 64 first)).lookup other = some waiting →
        first + 1 ≤ other.toNat := by
      intro other waiting present
      obtain ⟨different, present⟩ := lookup_of_erase present
      have bound := beyond other waiting present
      have apart : other.toNat ≠ first := fun same => different (BitVec.eq_of_toNat_eq (same.trans value.symm))
      omega
    have successor : BitVec.ofNat 64 (first + 1) = following := by
      rw [nextNumber_eq_some follows, BitVec.ofNat_add]
      rfl
    rw [← start] at ih
    exact .next less found (ih less further successor)

end Rounds

section Loop
variable {host : Host} {processor : BlockProcessor}

theorem drainLoop_of_absent {fuel : Nat} {number : U64} (absent : processor.pendingMap.lookup number = none) :
    BlockProcessor.drainLoop host fuel number processor = .ok ([], processor) := by
  cases fuel with
  | zero => rfl
  | succ fuel =>
    rw [BlockProcessor.drainLoop, Exec.get_bind, absent]
    rfl

/-- The loop has ended by itself when the fuel is the number of entries: more of it changes nothing. -/
theorem drainLoop_enough {fuel fuel' : Nat} {number : U64} (closed : processor.ledger.Closed)
    (enough : processor.pendingMap.keys.card ≤ fuel) (enough' : processor.pendingMap.keys.card ≤ fuel') :
    BlockProcessor.drainLoop host fuel number processor = BlockProcessor.drainLoop host fuel' number processor := by
  induction fuel generalizing fuel' number processor with
  | zero =>
    cases found : processor.pendingMap.lookup number with
    | none => rw [drainLoop_of_absent found, drainLoop_of_absent found]
    | some entry =>
      have fewer := HashMap.keys_card_erase found
      omega
  | succ fuel ih =>
    cases found : processor.pendingMap.lookup number with
    | none => rw [drainLoop_of_absent found, drainLoop_of_absent found]
    | some entry =>
      have fewer := HashMap.keys_card_erase found
      obtain ⟨fuel', rfl⟩ : ∃ rest, fuel' = rest + 1 := ⟨fuel' - 1, by omega⟩
      rw [BlockProcessor.drainLoop, BlockProcessor.drainLoop, Exec.get_bind, Exec.get_bind, found]
      simp only [Exec.modify_bind]
      have unqueued : Ledger.Closed (BlockProcessor.ledger
        { processor with pendingMap := processor.pendingMap.erase number }) := closed
      rcases attempt_processBlock host entry.block unqueued with
        ⟨ledger, result, metrics, absorbed, attempted⟩ | ⟨_, attempted⟩
      · rw [Exec.bind_ok attempted, Exec.bind_ok attempted, lift_nextNumber_bind, lift_nextNumber_bind]
        cases nextNumber host.overflowChecks number with
        | none => rfl
        | some following =>
          have kept : Ledger.Closed (BlockProcessor.ledger { BlockProcessor.withLedger ledger
            { processor with pendingMap := processor.pendingMap.erase number } with metrics := metrics }) :=
            absorb_closed unqueued absorbed
          have rest : BlockProcessor.drainLoop host fuel following _ = _ :=
            ih kept (by change (processor.pendingMap.erase number).keys.card ≤ _; omega)
              (by change (processor.pendingMap.erase number).keys.card ≤ fuel'; omega)
          simp only [Exec.bind_run, rest]
      · rw [Exec.bind_panic attempted, Exec.bind_panic attempted]

theorem drainLoop_drains {fuel : Nat} {number : U64} {processed : List Block} {after : BlockProcessor}
    (closed : processor.ledger.Closed) (enough : processor.pendingMap.keys.card ≤ fuel)
    (ran : BlockProcessor.drainLoop host fuel number processor = .ok (processed, after)) :
    Drains (processor.rules host) number processor.replica processed after.replica := by
  have simulates := drainLoop_simulates host fuel number closed
  rw [ran] at simulates
  cases drained : processor.replica.drain (processor.rules host) fuel number with
  | none =>
    rw [drained] at simulates
    exact simulates.elim
  | some result =>
    rw [drained] at simulates
    obtain ⟨same, seen⟩ := simulates
    have last : after.replica = result.2 := congrArg Prod.fst seen
    rw [same, last]
    exact Replica.drain_drains enough drained

/-- The loop, call by call: each entry is taken off the queue and handed to `process_block`, whatever comes of it. -/
inductive DrainCalls (host : Host) : U64 → BlockProcessor → List Block → BlockProcessor → Prop
  | stop {number processor} : processor.pendingMap.lookup number = none → DrainCalls host number processor [] processor
  | next {number following processor entry result between blocks after} :
      processor.pendingMap.lookup number = some entry →
      (Exec.attempt (BlockProcessor.processBlock host entry.block) : Exec BlockProcessor ProcessorError _)
        { processor with pendingMap := processor.pendingMap.erase number } = .ok (result, between) →
      nextNumber host.overflowChecks number = some following →
      DrainCalls host following between blocks after →
      DrainCalls host number processor (entry.block :: blocks) after

theorem drainLoop_calls {fuel : Nat} {number : U64} {processed : List Block} {after : BlockProcessor}
    (closed : processor.ledger.Closed) (enough : processor.pendingMap.keys.card ≤ fuel)
    (ran : BlockProcessor.drainLoop host fuel number processor = .ok (processed, after)) :
    DrainCalls host number processor processed after := by
  induction fuel generalizing number processor processed with
  | zero =>
    cases found : processor.pendingMap.lookup number with
    | none =>
      cases ran
      exact .stop found
    | some entry =>
      have fewer := HashMap.keys_card_erase found
      omega
  | succ fuel ih =>
    cases found : processor.pendingMap.lookup number with
    | none =>
      rw [drainLoop_of_absent found] at ran
      cases ran
      exact .stop found
    | some entry =>
      have fewer := HashMap.keys_card_erase found
      rw [BlockProcessor.drainLoop, Exec.get_bind, found] at ran
      simp only [Exec.modify_bind] at ran
      have unqueued : Ledger.Closed (BlockProcessor.ledger
        { processor with pendingMap := processor.pendingMap.erase number }) := closed
      rcases attempt_processBlock host entry.block unqueued with
        ⟨ledger, result, metrics, absorbed, attempted⟩ | ⟨_, attempted⟩
      · rw [Exec.bind_ok attempted, lift_nextNumber_bind] at ran
        cases follows : nextNumber host.overflowChecks number with
        | none =>
          rw [follows] at ran
          cases ran
        | some following =>
          rw [follows] at ran
          obtain ⟨rest, _, drained, ran⟩ := Exec.bind_eq_ok.mp ran
          cases ran
          refine .next found attempted follows (ih (absorb_closed unqueued absorbed) ?_ drained)
          change (processor.pendingMap.erase number).keys.card ≤ fuel
          omega
      · rw [Exec.bind_panic attempted] at ran
        cases ran

theorem tryDrain_eq (fits : processor.chainHead.number.toNat + 1 < 2 ^ 64) :
    BlockProcessor.tryDrain host processor =
      BlockProcessor.drainLoop host processor.pendingMap.keys.card (processor.chainHead.number + 1) processor := by
  rw [BlockProcessor.tryDrain, Exec.get_bind, add_of_fits fun _ => fits, Exec.bind_ok (Exec.lift_ok _ _)]

end Loop

section Reached
variable {host : Host} {genesis : Genesis} {processor : BlockProcessor}

/-- The states in which `try_drain` is called: the queue may have one more entry ahead of the head,
and the counters differ. -/
structure Drainable (processor queued : BlockProcessor) : Prop where
  ledger : queued.ledger = processor.ledger
  ahead : ∀ number entry, queued.pendingMap.lookup number = some entry → processor.chainHead.number < number

/-- Between two messages every entry of the queue stands under its own number, and beyond the number
that could be tried next. A drain ends within as many rounds as there are entries, with one call of
`process_block` for each entry that it takes off the queue. The ledger changes as by these calls alone. -/
theorem pending_queue_invariant (reach : Reach host genesis processor) :
    (∀ number entry, processor.pendingMap.lookup number = some entry →
      processor.chainHead.number.toNat + 1 < number.toNat ∧ entry.block.header.number = number) ∧
    (processor.chainHead.number.toNat < 2 ^ 64 - 2 → ∀ queued, Drainable processor queued →
      (∀ fuel, queued.pendingMap.keys.card ≤ fuel →
        BlockProcessor.tryDrain host queued =
          BlockProcessor.drainLoop host fuel (processor.chainHead.number + 1) queued) ∧
      ∀ processed after, BlockProcessor.tryDrain host queued = .ok (processed, after) →
        DrainCalls host (processor.chainHead.number + 1) queued processed after ∧
        Drains (queued.rules host) (processor.chainHead.number + 1) queued.replica processed after.replica ∧
        Drained (processor.chainHead.number.toNat + 1) queued.pendingMap after.pendingMap processed) := by
  have sound := reach.sound
  constructor
  · intro number entry found
    refine ⟨?_, sound.keyed number entry found⟩
    have ahead : processor.chainHead.number < number := sound.ahead number entry found
    obtain ⟨expected, next, absent⟩ := sound.gap
    have same : expected = processor.chainHead.number + 1 := nextNumber_eq_some next
    have apart : number ≠ expected := by
      rintro rfl
      cases found.symm.trans absent
    rw [same] at apart
    bv_omega
  intro below queued drainable
  have head : queued.chainHead = processor.chainHead := congrArg Ledger.chainHead drainable.ledger
  have fits : queued.chainHead.number.toNat + 1 < 2 ^ 64 := by
    rw [head]
    omega
  have closed : queued.ledger.Closed := by
    rw [drainable.ledger]
    exact reach.settled.1
  constructor
  · intro fuel enough
    rw [tryDrain_eq fits, head]
    exact drainLoop_enough closed le_rfl enough
  · intro processed after ran
    rw [tryDrain_eq fits, head] at ran
    have drains := drainLoop_drains closed le_rfl ran
    refine ⟨drainLoop_calls closed le_rfl ran, drains, ?_⟩
    have start : processor.chainHead.number + 1 = BitVec.ofNat 64 (processor.chainHead.number.toNat + 1) := by bv_omega
    rw [start] at drains
    exact drains.drained (by omega) fun number entry found => BitVec.lt_def.mp (drainable.ahead number entry found)

/-- A block of number 2 waits behind the missing block of number 1. -/
theorem pending_queue_invariant_waiting : ∃ processor, Reach sampleHost sampleGenesis processor ∧
    processor.pendingMap.lookup 2 = some (sampleRival 0) ∧ processor.chainHead.number.toNat + 1 < 2 := by
  have evaluated : ((deliver sampleHost (sampleGenesis.processor sampleHost) (sampleRival 0)).map fun step =>
      step.2.pendingMap.lookup 2) = some (some (sampleRival 0)) := by decide +kernel
  obtain ⟨step, delivered, queued⟩ := Option.map_eq_some_iff.mp evaluated
  have reach := sample_reach.next delivered
  exact ⟨step.2, reach, queued, ((pending_queue_invariant reach).1 2 _ queued).1⟩

end Reached

end MiniEthNode
