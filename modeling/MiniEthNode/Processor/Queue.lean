import MiniEthNode.Processor.Chain

namespace MiniEthNode
open Rust

/-- A block is in the queue, from whatever peer. -/
def Queue.Waits (block : Block) (pending : Queue) : Prop :=
  ∃ entry, pending.lookup block.header.number = some entry ∧ entry.block = block

/-- A block was handed to `process_block` while a message was handled. -/
def Delivery.Hands (block : Block) (delivery : Delivery) : Prop :=
  ∃ processed, delivery = .drained processed ∧ block ∈ processed

/-- A message takes the place of a block in the queue. -/
def Displaces (head : ChainHead) (message : PendingBlock) (block : Block) : Prop :=
  message.block.header.number = block.header.number ∧ head.number < message.block.header.number ∧
    message.block ≠ block

section Step
variable {rules : Rules} {replica : Replica}

/-- An entry leaves the queue in a drain only for `process_block`. -/
theorem Drains.keeps {number : U64} {after : Replica} {processed : List Block}
    (drains : Drains rules number replica processed after) {block : Block} (waits : replica.pending.Waits block) :
    after.pending.Waits block ∨ block ∈ processed := by
  induction drains with
  | stop => exact .inl waits
  | @next number _ replica entry _ _ _ found _ _ _ ih =>
    obtain ⟨waiting, present, same⟩ := waits
    by_cases here : block.header.number = number
    · rw [here, found, Option.some.injEq] at present
      right
      rw [← same, ← present]
      exact List.mem_cons_self
    · rcases ih ⟨waiting, by rw [HashMap.lookup_erase_ite, if_neg here, present], same⟩ with kept | taken
      · exact .inl kept
      · exact .inr (List.mem_cons_of_mem _ taken)

/-- The block of a message is refused as stale, or it is in the queue or handed on afterwards. -/
theorem Replica.receive_own {message : PendingBlock} {delivery : Delivery} {after : Replica}
    (received : replica.receive rules message = some (delivery, after)) :
    (∃ expected, delivery = .rejected (.invalidBlockNumber message.block.header.number expected)) ∨
      after.pending.Waits message.block ∨ delivery.Hands message.block := by
  obtain ⟨expected, _, ⟨stale, _⟩ | ⟨_, processed, handled, drains⟩⟩ := Replica.receive_cases received
  · exact .inl ⟨expected, stale⟩
  · have queued : Queue.Waits message.block (replica.pending.insert message.block.header.number message) :=
      ⟨message, by rw [HashMap.lookup_insert_ite, if_pos rfl], rfl⟩
    rcases drains.keeps queued with kept | taken
    · exact .inr (.inl kept)
    · exact .inr (.inr ⟨processed, handled, taken⟩)

/-- A waiting block stays, is handed on, or gives way to the message. -/
theorem Replica.receive_keeps {message : PendingBlock} {delivery : Delivery} {after : Replica}
    (received : replica.receive rules message = some (delivery, after)) {block : Block}
    (waits : replica.pending.Waits block) :
    after.pending.Waits block ∨ delivery.Hands block ∨ Displaces replica.ledger.chainHead message block := by
  obtain ⟨expected, _, ⟨_, rfl⟩ | ⟨fresh, processed, handled, drains⟩⟩ := Replica.receive_cases received
  · exact .inl waits
  · by_cases rival : message.block.header.number = block.header.number ∧ message.block ≠ block
    · exact .inr (.inr ⟨rival.1, fresh, rival.2⟩)
    · have queued : Queue.Waits block (replica.pending.insert message.block.header.number message) := by
        obtain ⟨entry, present, same⟩ := waits
        by_cases number : block.header.number = message.block.header.number
        · refine ⟨message, by rw [HashMap.lookup_insert_ite, if_pos number], ?_⟩
          exact not_not.mp fun other => rival ⟨number.symm, other⟩
        · exact ⟨entry, by rw [HashMap.lookup_insert_ite, if_neg number, present], same⟩
      rcases drains.keeps queued with kept | taken
      · exact .inl kept
      · exact .inr (.inl ⟨processed, handled, taken⟩)

end Step

section Sound
variable {rules : Rules} {replica : Replica}

theorem lookup_of_erase {pending : Queue} {erased number : U64} {entry : PendingBlock}
    (found : (pending.erase erased).lookup number = some entry) :
    number ≠ erased ∧ pending.lookup number = some entry := by
  rw [HashMap.lookup_erase_ite] at found
  split at found
  · cases found
  · rename_i different
    exact ⟨different, found⟩

/-- Every entry of a queue stands under the number of its block. -/
def Queue.Keyed (pending : Queue) : Prop :=
  ∀ number entry, pending.lookup number = some entry → entry.block.header.number = number

theorem Queue.Keyed.insert {pending : Queue} (keyed : pending.Keyed) (message : PendingBlock) :
    Queue.Keyed (pending.insert message.block.header.number message) := by
  intro number entry found
  rw [HashMap.lookup_insert_ite] at found
  split at found
  · rename_i here
    cases found
    exact here.symm
  · exact keyed number entry found

theorem Queue.Keyed.erase {pending : Queue} (keyed : pending.Keyed) (number : U64) :
    Queue.Keyed (pending.erase number) :=
  fun other entry found => keyed other entry (lookup_of_erase found).2

/-- Between two messages the queue lies ahead of the head and leaves a gap behind it. -/
structure Replica.Sound (rules : Rules) (replica : Replica) : Prop where
  keyed : replica.pending.Keyed
  ahead : ∀ number entry, replica.pending.lookup number = some entry → replica.ledger.chainHead.number < number
  gap : ∃ expected, nextNumber rules.host.overflowChecks replica.ledger.chainHead.number = some expected ∧
    replica.pending.lookup expected = none

/-- While the queue is drained from `k` on, what lies before `k` is gone. -/
structure Replica.Draining (rules : Rules) (k : Nat) (replica : Replica) : Prop where
  keyed : replica.pending.Keyed
  beyond : ∀ number entry, replica.pending.lookup number = some entry → k ≤ number.toNat
  passed : replica.ledger.chainHead.number.toNat < k
  counts : ∃ expected, nextNumber rules.host.overflowChecks replica.ledger.chainHead.number = some expected

/-- A drain that has come to a number without an entry leaves the gap. -/
theorem Replica.Draining.stop {k : Nat} (draining : replica.Draining rules k)
    (absent : replica.pending.lookup (BitVec.ofNat 64 k) = none) : replica.Sound rules := by
  have passed := draining.passed
  refine ⟨draining.keyed, fun number entry found => ?_, ?_⟩
  · have bound := draining.beyond number entry found
    rw [BitVec.lt_def]
    omega
  · obtain ⟨expected, next⟩ := draining.counts
    refine ⟨expected, next, ?_⟩
    cases found : replica.pending.lookup expected with
    | none => rfl
    | some entry =>
      have bound := draining.beyond expected entry found
      have here : expected = BitVec.ofNat 64 k := by
        rw [nextNumber_eq_some next] at bound ⊢
        bv_omega
      rw [here, absent] at found
      cases found

theorem Replica.Draining.next {k : Nat} {entry : PendingBlock} {ledger : Ledger} {following : U64}
    (draining : replica.Draining rules k) (found : replica.pending.lookup (BitVec.ofNat 64 k) = some entry)
    (absorbed : absorb rules replica.ledger entry.block = some ledger)
    (follows : nextNumber rules.host.overflowChecks (BitVec.ofNat 64 k) = some following) :
    following = BitVec.ofNat 64 (k + 1) ∧
      Replica.Draining rules (k + 1) ⟨ledger, replica.pending.erase (BitVec.ofNat 64 k)⟩ := by
  have small : k < 2 ^ 64 := by
    have bound := draining.beyond _ _ found
    have below := (BitVec.ofNat 64 k).isLt
    omega
  have value : (BitVec.ofNat 64 k).toNat = k := by rw [BitVec.toNat_ofNat, Nat.mod_eq_of_lt small]
  have passed := draining.passed
  have height : ledger.chainHead.number = replica.ledger.chainHead.number ∨
      ledger.chainHead.number = BitVec.ofNat 64 k := by
    rcases absorb_cases absorbed with ⟨output, committed⟩ | rfl
    · exact .inr ((judge_number committed).2.trans (draining.keyed _ _ found))
    · exact .inl rfl
  refine ⟨?_, draining.keyed.erase _, fun number waiting present => ?_, ?_, ?_⟩
  · rw [nextNumber_eq_some follows, BitVec.ofNat_add]
    rfl
  · obtain ⟨different, present⟩ := lookup_of_erase present
    have bound := draining.beyond number waiting present
    have apart : number.toNat ≠ k := fun same => different (BitVec.eq_of_toNat_eq (same.trans value.symm))
    omega
  · rcases height with same | top
    · rw [same]
      omega
    · rw [top, value]
      omega
  · rcases height with same | top
    · rw [same]
      exact draining.counts
    · rw [top]
      exact ⟨following, follows⟩

theorem Replica.Draining.run {k : Nat} {after : Replica} {processed : List Block}
    (draining : replica.Draining rules k) (drains : Drains rules (BitVec.ofNat 64 k) replica processed after) :
    after.Sound rules := by
  generalize start : BitVec.ofNat 64 k = number at drains
  induction drains generalizing k with
  | stop absent =>
    rw [← start] at absent
    exact draining.stop absent
  | next found absorbed follows _ ih =>
    rw [← start] at found follows
    obtain ⟨same, draining'⟩ := draining.next found absorbed follows
    rw [start] at draining'
    exact ih draining' same.symm

theorem Replica.Sound.receive {message : PendingBlock} {delivery : Delivery} {after : Replica}
    (sound : replica.Sound rules) (received : replica.receive rules message = some (delivery, after)) :
    after.Sound rules := by
  obtain ⟨expected, next, ⟨_, rfl⟩ | ⟨fresh, processed, _, drains⟩⟩ := Replica.receive_cases received
  · exact sound
  · have above : replica.ledger.chainHead.number.toNat < message.block.header.number.toNat := by bv_omega
    have start : expected = BitVec.ofNat 64 (replica.ledger.chainHead.number.toNat + 1) := by
      rw [nextNumber_eq_some next]
      bv_omega
    rw [start] at drains
    have draining : Replica.Draining rules (replica.ledger.chainHead.number.toNat + 1)
        ⟨replica.ledger, replica.pending.insert message.block.header.number message⟩ := by
      refine ⟨sound.keyed.insert message, fun number entry found => ?_, Nat.lt_succ_self _, ⟨expected, next⟩⟩
      rw [HashMap.lookup_insert_ite] at found
      split at found
      · rename_i here
        rw [here]
        exact above
      · exact BitVec.lt_def.mp (sound.ahead number entry found)
    exact draining.run drains

theorem Reach.sound {host : Host} {genesis : Genesis} {processor : BlockProcessor}
    (reach : Reach host genesis processor) : processor.replica.Sound (genesis.rules host) := by
  refine reach.invariant (P := fun replica => replica.Sound (genesis.rules host)) ⟨?_, ?_, ?_⟩ ?_
  · intro number entry found
    cases found
  · intro number entry found
    cases found
  · have first : nextNumber host.overflowChecks (0 : U64) = some (0 + 1) := nextNumber_of_lt (by decide)
    exact ⟨0 + 1, first, rfl⟩
  · exact fun sound received => sound.receive received

end Sound

/-- Among the messages of a run there is one that takes the place of a block waiting at that time. -/
def Replaced (host : Host) (processor : BlockProcessor) (messages : List PendingBlock) (block : Block) : Prop :=
  ∃ front rival back deliveries between, messages = front ++ rival :: back ∧
    deliverAll host processor front = some (deliveries, between) ∧
    Queue.Waits block between.pendingMap ∧ Displaces between.chainHead rival block

theorem Replaced.cons {host : Host} {processor between : BlockProcessor} {message : PendingBlock}
    {rest : List PendingBlock} {delivery : Delivery} {block : Block}
    (delivered : deliver host processor message = some (delivery, between))
    (replaced : Replaced host between rest block) : Replaced host processor (message :: rest) block := by
  obtain ⟨front, rival, back, deliveries, there, rfl, ran, waits, displaces⟩ := replaced
  refine ⟨message :: front, rival, back, delivery :: deliveries, there, rfl, ?_, waits, displaces⟩
  rw [deliverAll_cons delivered, ran]
  rfl

section Reached
variable {host : Host} {genesis : Genesis} {processor first after : BlockProcessor}

theorem waits_run {messages : List PendingBlock} {deliveries : List Delivery}
    (reach : Reach host genesis processor)
    (ran : deliverAll host processor messages = some (deliveries, after)) {block : Block}
    (waits : Queue.Waits block processor.pendingMap) :
    Queue.Waits block after.pendingMap ∨ (∃ delivery ∈ deliveries, delivery.Hands block) ∨
      Replaced host processor messages block := by
  induction messages generalizing processor deliveries with
  | nil =>
    cases ran
    exact .inl waits
  | cons message rest ih =>
    obtain ⟨⟨delivery, between⟩, delivered, ran⟩ := Option.bind_eq_some_iff.mp ran
    obtain ⟨⟨later, last⟩, ran, same⟩ := Option.bind_eq_some_iff.mp ran
    cases same
    rcases Replica.receive_keeps (reach.receive delivered) waits with kept | handed | displaced
    · rcases ih (reach.next delivered) ran kept with still | ⟨found, member, handed⟩ | replaced
      · exact .inl still
      · exact .inr (.inl ⟨found, List.mem_cons_of_mem _ member, handed⟩)
      · exact .inr (.inr (replaced.cons delivered))
    · exact .inr (.inl ⟨delivery, List.mem_cons_self, handed⟩)
    · exact .inr (.inr ⟨[], message, rest, [], processor, rfl, rfl, waits, displaced⟩)

/-- A block that was delivered has been refused as stale, is waiting, was handed to `process_block`,
or a later block of the same number has taken its place in the queue. One message makes a waiting
block disappear only for `process_block` or by taking its place. -/
theorem delivery_accounted_for {message : PendingBlock} {delivery : Delivery} {rest : List PendingBlock}
    {later : List Delivery} (reach : Reach host genesis processor)
    (delivered : deliver host processor message = some (delivery, first))
    (ran : deliverAll host first rest = some (later, after)) :
    ((∃ expected, delivery = .rejected (.invalidBlockNumber message.block.header.number expected)) ∨
      Queue.Waits message.block after.pendingMap ∨
      (∃ handing ∈ delivery :: later, handing.Hands message.block) ∨
      Replaced host first rest message.block) ∧
    ∀ block, Queue.Waits block processor.pendingMap →
      Queue.Waits block first.pendingMap ∨ delivery.Hands block ∨ Displaces processor.chainHead message block := by
  have received := reach.receive delivered
  refine ⟨?_, fun block waits => Replica.receive_keeps received waits⟩
  rcases Replica.receive_own received with stale | waits | handed
  · exact .inl stale
  · rcases waits_run (reach.next delivered) ran waits with still | ⟨handing, member, handed⟩ | replaced
    · exact .inr (.inl still)
    · exact .inr (.inr (.inl ⟨handing, List.mem_cons_of_mem _ member, handed⟩))
    · exact .inr (.inr (.inr replaced))
  · exact .inr (.inr (.inl ⟨delivery, List.mem_cons_self, handed⟩))

/-- Two blocks of number 2 that differ in the gas they say they used. -/
def sampleRival (gasUsed : Nat) : PendingBlock := ⟨sampleBlock 0 gasUsed 2 [], ⟨0⟩⟩

theorem delivery_accounted_for_rival : ∃ first after delivery later,
    deliver sampleHost (sampleGenesis.processor sampleHost) (sampleRival 0) = some (delivery, first) ∧
    deliverAll sampleHost first [sampleRival 1] = some (later, after) ∧
    ((∃ expected, delivery = .rejected (.invalidBlockNumber 2 expected)) ∨
      Queue.Waits (sampleRival 0).block after.pendingMap ∨
      (∃ handing ∈ delivery :: later, handing.Hands (sampleRival 0).block) ∨
      Replaced sampleHost first [sampleRival 1] (sampleRival 0).block) := by
  have queued : ((deliver sampleHost (sampleGenesis.processor sampleHost) (sampleRival 0)).bind fun step =>
      deliverAll sampleHost step.2 [sampleRival 1]).isSome = true := by decide +kernel
  obtain ⟨run, ran⟩ := Option.isSome_iff_exists.mp queued
  obtain ⟨step, delivered, ran⟩ := Option.bind_eq_some_iff.mp ran
  exact ⟨step.2, run.2, step.1, run.1, delivered, ran, (delivery_accounted_for sample_reach delivered ran).1⟩

/-- The first of two blocks of one number is gone: no message was refused, nothing was handed to
`process_block`, and the place in the queue is taken by the second. -/
theorem pending_block_replaced : ∃ processor deliveries after, Reach sampleHost sampleGenesis processor ∧
    deliverAll sampleHost processor [sampleRival 0, sampleRival 1] = some (deliveries, after) ∧
    (∀ delivery ∈ deliveries, delivery = .drained []) ∧ ¬ Queue.Waits (sampleRival 0).block after.pendingMap := by
  have evaluated : ((deliverAll sampleHost (sampleGenesis.processor sampleHost) [sampleRival 0, sampleRival 1]).map
      fun run => (run.1, run.2.pendingMap.lookup 2)) = some ([.drained [], .drained []], some (sampleRival 1)) := by
    decide +kernel
  obtain ⟨run, ran, same⟩ := Option.map_eq_some_iff.mp evaluated
  obtain ⟨deliveries, queued⟩ := Prod.mk.inj same
  refine ⟨_, run.1, run.2, sample_reach, ran, by rw [deliveries]; simp, ?_⟩
  rintro ⟨entry, found, block⟩
  cases queued.symm.trans found
  revert block
  decide

end Reached

end MiniEthNode
