import MiniEthNode.Processor.Queue

namespace MiniEthNode
open Rust

namespace Committed
variable {rules : Rules} {before after : Ledger} {blocks : List Block}

theorem head_lt (committed : Committed rules before blocks after) :
    ∀ block ∈ blocks, before.chainHead.number.toNat < block.header.number.toNat := by
  induction committed with
  | nil => simp
  | cons step _ ih =>
    obtain ⟨number, head⟩ := judge_number step
    intro block member
    rcases List.mem_cons.mp member with rfl | later
    · omega
    · have above := ih block later
      rw [head] at above
      omega

theorem le_head (committed : Committed rules before blocks after) :
    (∀ block ∈ blocks, block.header.number.toNat ≤ after.chainHead.number.toNat) ∧
      before.chainHead.number.toNat ≤ after.chainHead.number.toNat := by
  induction committed with
  | nil => simp
  | cons step _ ih =>
    obtain ⟨number, head⟩ := judge_number step
    obtain ⟨within, grown⟩ := ih
    rw [head] at grown
    refine ⟨fun block member => ?_, by omega⟩
    rcases List.mem_cons.mp member with rfl | later
    · exact grown
    · exact within block later

theorem eq_of_number (committed : Committed rules before blocks after) {first second : Block}
    (one : first ∈ blocks) (two : second ∈ blocks) (same : first.header.number = second.header.number) :
    first = second := by
  induction committed with
  | nil => simp at one
  | cons step rest ih =>
    obtain ⟨number, head⟩ := judge_number step
    have above := rest.head_lt
    rw [head] at above
    rcases List.mem_cons.mp one with rfl | oneLater
    · rcases List.mem_cons.mp two with rfl | twoLater
      · rfl
      · have below := above second twoLater
        rw [same] at below
        omega
    · rcases List.mem_cons.mp two with rfl | twoLater
      · have below := above first oneLater
        rw [same] at below
        omega
      · exact ih oneLater twoLater

end Committed

/-- Every entry of a queue stands under its number and holds one of some blocks. -/
def Queue.Within (blocks : List Block) (pending : Queue) : Prop :=
  ∀ number entry, pending.lookup number = some entry →
    entry.block.header.number = number ∧ entry.block ∈ blocks

theorem Queue.Within.empty {pending : Queue} (within : pending.Within []) : pending = ∅ := by
  refine Finmap.ext_lookup fun number => ?_
  cases found : pending.lookup number with
  | none => rfl
  | some entry => simpa using (within number entry found).2

/-- Only the first block's own place can hold it. -/
theorem Queue.Within.tail {pending : Queue} {block : Block} {rest : List Block}
    (within : pending.Within (block :: rest)) (absent : pending.lookup block.header.number = none) :
    pending.Within rest := by
  intro number entry present
  obtain ⟨keyed, member⟩ := within number entry present
  refine ⟨keyed, ?_⟩
  rcases List.mem_cons.mp member with same | later
  · rw [← keyed, same, absent] at present
    cases present
  · exact later

theorem Queue.Within.erase {pending : Queue} {blocks : List Block} (within : pending.Within blocks) (number : U64) :
    Queue.Within blocks (pending.erase number) :=
  fun other entry present => within other entry (lookup_of_erase present).2

/-- Where the queue holds nothing but blocks to come, a drain commits the ones that are there
without a gap, and what remains lies beyond the next block. -/
theorem Replica.drain_converges {rules : Rules} {ledger target : Ledger} {back : List Block} {pending : Queue}
    {fuel : Nat} {number : U64} (committed : Committed rules ledger back target) (within : pending.Within back)
    (enough : pending.keys.card ≤ fuel)
    (counts : ∀ block ∈ back, ∃ following, nextNumber rules.host.overflowChecks block.header.number = some following)
    (next : back ≠ [] → number.toNat = ledger.chainHead.number.toNat + 1) :
    ∃ taken rest ledger' pending', back = taken ++ rest ∧
      Replica.drain rules fuel number ⟨ledger, pending⟩ = some (taken, ⟨ledger', pending'⟩) ∧
      Committed rules ledger taken ledger' ∧ Committed rules ledger' rest target ∧ pending'.Within rest.tail := by
  induction committed generalizing pending fuel number with
  | @nil ledger =>
    obtain rfl := within.empty
    exact ⟨[], [], ledger, ∅, rfl, Replica.drain_of_absent rfl, .nil, .nil, within⟩
  | @cons ledger between target block output rest step later ih =>
    obtain ⟨height, head⟩ := judge_number step
    have here : block.header.number = number := BitVec.eq_of_toNat_eq (by rw [height, next (by simp)])
    cases found : pending.lookup number with
    | none =>
      have beyond : pending.Within rest := within.tail (by rw [here, found])
      exact ⟨[], block :: rest, ledger, pending, rfl, Replica.drain_of_absent found, .nil, .cons step later, beyond⟩
    | some entry =>
      obtain ⟨keyed, member⟩ := within number entry found
      have same : entry.block = block :=
        (Committed.cons step later).eq_of_number member List.mem_cons_self (keyed.trans here.symm)
      obtain ⟨fuel', _, enough', drains⟩ := Replica.drain_of_found rules ⟨ledger, pending⟩ found enough
      obtain ⟨following, follows⟩ := counts block List.mem_cons_self
      have within' : Queue.Within rest (pending.erase number) :=
        (within.erase number).tail (by rw [here, HashMap.lookup_erase_ite, if_pos rfl])
      have next' : rest ≠ [] → following.toNat = between.chainHead.number.toNat + 1 := by
        intro more
        obtain ⟨successor, inside⟩ := List.exists_mem_of_ne_nil rest more
        have above := later.head_lt successor inside
        have bound := successor.header.number.isLt
        rw [nextNumber_eq_some follows, ← head]
        bv_omega
      obtain ⟨taken, remaining, ledger', pending', split, drained, first, second, beyond⟩ :=
        ih within' enough' (fun waiting inside => counts waiting (List.mem_cons_of_mem _ inside)) next'
      refine ⟨block :: taken, remaining, ledger', pending', by rw [split, List.cons_append], ?_, .cons step first,
        second, beyond⟩
      have absorbed : absorb rules ledger entry.block = some between := by
        rw [absorb, same, step]
      rw [here] at follows
      rw [drains, absorbed, Option.bind_some, follows, Option.bind_some, drained, same]
      rfl

/-- Of the blocks `front ++ back` those of `front` are committed, and what has arrived of the others
waits beyond the first of them. -/
structure Converging (rules : Rules) (start target : Ledger) (front back seen : List Block) (replica : Replica) :
    Prop where
  past : Committed rules start front replica.ledger
  future : Committed rules replica.ledger back target
  within : replica.pending.Within back.tail
  arrived : ∀ block ∈ seen, block ∈ front ∨ replica.pending.Waits block
  sound : replica.Sound rules

theorem Converging.receive {rules : Rules} {start target : Ledger} {front back seen : List Block} {replica : Replica}
    (converging : Converging rules start target front back seen replica)
    (counts : ∀ block ∈ front ++ back,
      ∃ following, nextNumber rules.host.overflowChecks block.header.number = some following)
    {message : PendingBlock} (member : message.block ∈ front ++ back) :
    ∃ front' back' delivery replica', front' ++ back' = front ++ back ∧
      replica.receive rules message = some (delivery, replica') ∧
      Converging rules start target front' back' (message.block :: seen) replica' := by
  obtain ⟨past, future, within, arrived, sound⟩ := converging
  obtain ⟨expected, next, _⟩ := sound.gap
  by_cases stale : message.block.header.number ≤ replica.ledger.chainHead.number
  · have old : message.block ∈ front := by
      rcases List.mem_append.mp member with old | new
      · exact old
      · have above := future.head_lt _ new
        bv_omega
    refine ⟨front, back, _, replica, rfl, Replica.receive_stale next stale, past, future, within, ?_, sound⟩
    intro block inside
    rcases List.mem_cons.mp inside with rfl | earlier
    · exact .inl old
    · exact arrived block earlier
  · have new : message.block ∈ back := by
      rcases List.mem_append.mp member with old | new
      · have below := past.le_head.1 _ old
        bv_omega
      · exact new
    have within' : Queue.Within back (replica.pending.insert message.block.header.number message) := by
      intro number entry found
      rw [HashMap.lookup_insert_ite] at found
      split at found
      · rename_i here
        cases found
        exact ⟨here.symm, new⟩
      · obtain ⟨keyed, inside⟩ := within number entry found
        exact ⟨keyed, List.mem_of_mem_tail inside⟩
    have first : back ≠ [] → expected.toNat = replica.ledger.chainHead.number.toNat + 1 := by
      intro _
      rw [nextNumber_eq_some next]
      bv_omega
    obtain ⟨taken, rest, ledger', pending', split, drained, committed, remaining, beyond⟩ :=
      Replica.drain_converges future within' le_rfl (fun block inside => counts block (List.mem_append_right _ inside))
        first
    have received : replica.receive rules message = some (.drained taken, ⟨ledger', pending'⟩) := by
      rw [Replica.receive_fresh next stale, drained]
      rfl
    refine ⟨front ++ taken, rest, _, _, by rw [split, List.append_assoc], received, past.trans committed, remaining,
      beyond, ?_, sound.receive received⟩
    have handed : ∀ block, (Delivery.drained taken).Hands block → block ∈ front ++ taken := by
      rintro block ⟨processed, same, inside⟩
      cases same
      exact List.mem_append_right _ inside
    intro block inside
    rcases List.mem_cons.mp inside with rfl | earlier
    · rcases Replica.receive_own received with ⟨_, refused⟩ | waits | hands
      · cases refused
      · exact .inr waits
      · exact .inl (handed _ hands)
    · rcases arrived block earlier with old | waiting
      · exact .inl (List.mem_append_left _ old)
      · rcases Replica.receive_keeps received waiting with waits | hands | ⟨number, _, different⟩
        · exact .inr waits
        · exact .inl (handed _ hands)
        · obtain ⟨entry, found, same⟩ := waiting
          have inBack : block ∈ back := same ▸ List.mem_of_mem_tail (within _ _ found).2
          exact absurd (future.eq_of_number new inBack number) different

theorem Converging.receiveAll {rules : Rules} {start target : Ledger} {front back seen : List Block}
    {replica : Replica} (converging : Converging rules start target front back seen replica)
    (counts : ∀ block ∈ front ++ back,
      ∃ following, nextNumber rules.host.overflowChecks block.header.number = some following)
    {messages : List PendingBlock} (only : ∀ message ∈ messages, message.block ∈ front ++ back) :
    ∃ front' back' deliveries replica', front' ++ back' = front ++ back ∧
      replica.receiveAll rules messages = some (deliveries, replica') ∧
      Converging rules start target front' back' ((messages.map (·.block)).reverse ++ seen) replica' := by
  induction messages generalizing front back seen replica with
  | nil => exact ⟨front, back, [], replica, rfl, rfl, converging⟩
  | cons message rest ih =>
    obtain ⟨front₁, back₁, delivery, between, same₁, received, converging₁⟩ :=
      converging.receive counts (only message List.mem_cons_self)
    obtain ⟨front₂, back₂, deliveries, after, same₂, ran, converging₂⟩ := ih converging₁ (same₁ ▸ counts)
      fun later inside => same₁ ▸ only later (List.mem_cons_of_mem _ inside)
    refine ⟨front₂, back₂, delivery :: deliveries, after, same₂.trans same₁, ?_, ?_⟩
    · rw [Replica.receiveAll, received, Option.bind_some, ran]
      rfl
    · rw [List.map_cons, List.reverse_cons, List.append_assoc]
      exact converging₂

/-- When all blocks have arrived, all are committed and nothing waits. -/
theorem Converging.complete {rules : Rules} {start target : Ledger} {front back seen : List Block}
    {replica : Replica} (converging : Converging rules start target front back seen replica)
    (all : ∀ block ∈ front ++ back, block ∈ seen) : replica = ⟨target, ∅⟩ := by
  obtain ⟨past, future, within, arrived, _⟩ := converging
  cases future with
  | nil => rw [← within.empty]
  | @cons _ between _ block output rest step later =>
    exfalso
    obtain ⟨number, head⟩ := judge_number step
    rcases arrived block (all block (List.mem_append_right _ List.mem_cons_self)) with old | ⟨entry, found, same⟩
    · have below := past.le_head.1 block old
      omega
    · have inside : block ∈ rest := same ▸ (within _ _ found).2
      have above := later.head_lt block inside
      rw [head] at above
      omega

section Reached
variable {host : Host} {genesis : Genesis} {processor target : BlockProcessor}

/-- Every number on the way to a head that can be reached can be counted up. -/
theorem Reach.counts (reach : Reach host genesis target) {ledger : Ledger} {blocks : List Block}
    (committed : Committed (genesis.rules host) ledger blocks target.ledger) :
    ∀ block ∈ blocks, ∃ following, nextNumber host.overflowChecks block.header.number = some following := by
  intro block inside
  have bound := committed.le_head.1 block inside
  by_cases top : block.header.number = target.chainHead.number
  · obtain ⟨expected, next, _⟩ := reach.sound.gap
    rw [top]
    exact ⟨expected, next⟩
  · have below := target.chainHead.number.isLt
    change block.header.number.toNat ≤ target.chainHead.number.toNat at bound
    exact ⟨_, nextNumber_of_lt (by bv_omega)⟩

/-- Blocks that are committed when they are delivered in order are committed to the same ledger
however they are delivered, in any order, repeatedly and by any peers, and nothing is left in the queue. -/
theorem delivery_order_convergence {inOrder messages : List PendingBlock} {deliveries : List Delivery}
    (reach : Reach host genesis processor) (empty : processor.pendingMap = ∅)
    (ran : deliverAll host processor inOrder = some (deliveries, target))
    (commits : target.blockList = processor.blockList ++ inOrder.map (·.block))
    (only : ∀ message ∈ messages, message.block ∈ inOrder.map (·.block))
    (each : ∀ block ∈ inOrder.map (·.block), ∃ message ∈ messages, message.block = block) :
    ∃ deliveries' after, deliverAll host processor messages = some (deliveries', after) ∧
      after.chainHead = target.chainHead ∧ after.sharedHead = target.sharedHead ∧
      after.pipeline.provider = target.pipeline.provider ∧ after.pendingMap = ∅ := by
  obtain ⟨holds, _⟩ := reach.holds
  obtain ⟨blocks, committed⟩ := reach.run_committed ran
  have same : blocks = inOrder.map (·.block) := by
    rw [holds.blockList, (Ledger.Holds.committed committed holds).blockList] at commits
    exact List.append_cancel_left commits
  rw [same] at committed
  have start : Converging (genesis.rules host) processor.ledger target.ledger [] (inOrder.map (·.block)) []
      processor.replica := by
    refine ⟨.nil, committed, ?_, by simp, reach.sound⟩
    intro number entry found
    change processor.pendingMap.lookup number = some entry at found
    rw [empty] at found
    cases found
  obtain ⟨front, back, deliveries', replica, whole, received, converging⟩ :=
    start.receiveAll ((reach.run ran).counts committed) only
  have complete := converging.complete fun block inside => by
    rw [whole] at inside
    obtain ⟨message, member, rfl⟩ := each block inside
    simp only [List.append_nil, List.mem_reverse]
    exact List.mem_map_of_mem member
  rw [reach.receiveAll_eq] at received
  obtain ⟨run, delivered, seen⟩ := Option.map_eq_some_iff.mp received
  obtain ⟨_, reached⟩ := Prod.mk.inj seen
  rw [complete] at reached
  have ledgers : run.2.ledger = target.ledger := congrArg Replica.ledger reached
  exact ⟨run.1, run.2, delivered, congrArg Ledger.chainHead ledgers, congrArg Ledger.sharedHead ledgers,
    congrArg Ledger.provider ledgers, congrArg Replica.pending reached⟩

/-- The second sample block comes first, from another peer, and then once more. -/
theorem delivery_order_convergence_two_blocks : ∃ deliveries after,
    deliverAll sampleHost (sampleGenesis.processor sampleHost)
      [⟨sampleSecond.block, ⟨7⟩⟩, sampleFirst, sampleSecond] = some (deliveries, after) ∧
    after.chainHead.number = 2 ∧ after.pendingMap = ∅ := by
  have inOrder : ((deliverAll sampleHost (sampleGenesis.processor sampleHost) [sampleFirst, sampleSecond]).map
      fun run => (run.2.blockList, run.2.chainHead.number)) =
        some ((sampleGenesis.processor sampleHost).blockList ++ [sampleFirst.block, sampleSecond.block], 2) := by
    decide +kernel
  obtain ⟨run, ran, same⟩ := Option.map_eq_some_iff.mp inOrder
  obtain ⟨commits, head⟩ := Prod.mk.inj same
  have only : ∀ message ∈ ([⟨sampleSecond.block, ⟨7⟩⟩, sampleFirst, sampleSecond] : List PendingBlock),
      message.block ∈ [sampleFirst, sampleSecond].map (·.block) := by simp
  obtain ⟨deliveries, after, delivered, sameHead, _, _, empty⟩ :=
    delivery_order_convergence sample_reach rfl ran commits only (by simp)
  exact ⟨deliveries, after, delivered, by rw [sameHead, head], empty⟩

end Reached

end MiniEthNode
