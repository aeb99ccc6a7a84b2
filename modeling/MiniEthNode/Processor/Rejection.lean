import MiniEthNode.Processor.Queue

namespace MiniEthNode
open Rust

/-- A ledger whose head, and with it every stored number, can be counted up. -/
structure Ledger.Steady (rules : Rules) (ledger : Ledger) : Prop where
  holds : ∃ chain, ledger.Holds rules.host chain
  counts : ∃ expected, nextNumber rules.host.overflowChecks ledger.chainHead.number = some expected

theorem nextNumber_eq_ok {checks : Bool} {number following : U64} (next : nextNumber checks number = some following) :
    add (ε := ProcessorError) checks number 1 = .ok following :=
  Outcome.toOption_eq_some.mp next

/-- The number after a smaller one exists too. -/
theorem nextNumber_of_le {checks : Bool} {high following : U64} (next : nextNumber checks high = some following)
    (low : U64) (below : low.toNat ≤ high.toNat) : ∃ expected, nextNumber checks low = some expected := by
  by_cases same : low = high
  · rw [same]
    exact ⟨following, next⟩
  · have bound := high.isLt
    exact ⟨low + 1, nextNumber_of_lt (by bv_omega)⟩

section Invalid
variable {rules : Rules} {ledger : Ledger} {block : Block}

theorem Ledger.Steady.admission_ne_panic (steady : ledger.Steady rules) : admission rules.host ledger block ≠ .panic := by
  obtain ⟨⟨chain, holds⟩, expected, next⟩ := steady
  unfold admission
  cases found : ledger.provider.getBlockByHash block.header.parentHash with
  | panic => exact absurd found (getBlockByHash_ne_panic _ _)
  | err error => simp
  | ok parent =>
    obtain ⟨first, counted⟩ := nextNumber_of_le next parent.header.number (holds.parent_number_le found)
    simp only [nextNumber_eq_ok counted, nextNumber_eq_ok next, Outcome.ok_bind]
    split
    · simp
    · split
      · simp
      · split <;> simp

theorem validateHeader_ne_panic (host : Host) (validator : StrictValidator) (header parent : Header) :
    ConsensusValidator.validateHeader host validator header parent ≠ .panic := by
  refine Outcome.bind_ne_panic ?_ fun _ _ => Outcome.bind_ne_panic ?_ fun _ _ => ?_
  · rw [checkParentHash, hashHeader_eq, Outcome.mapErr_ok, Outcome.ok_bind]
    split <;> simp
  · refine Outcome.bind_ne_panic Outcome.okOr_ne_panic fun _ _ => ?_
    split <;> simp
  · unfold checkGas
    split <;> simp

theorem validateHeader_invalid (host : Host) (validator : StrictValidator) {header : Header} (parent : Header)
    (invalid : header.gasLimit < header.gasUsed) :
    ∃ error, ConsensusValidator.validateHeader host validator header parent = .err error := by
  refine Outcome.eq_err_of_ne (validateHeader_ne_panic host validator header parent) fun _ valid => ?_
  have within := (validateHeader_ok valid).2.2
  bv_omega

/-- A block that says it used more gas than its limit is rejected, whatever else is in it. -/
theorem Ledger.Steady.absorb_invalid (steady : ledger.Steady rules)
    (invalid : block.header.gasLimit < block.header.gasUsed) : absorb rules ledger block = some ledger := by
  have rejected : ∃ error, judge rules ledger block = .err error := by
    refine Outcome.eq_err_of_ne ?_ fun outcome committed => ?_
    · refine Outcome.bind_ne_panic steady.admission_ne_panic fun _ _ =>
        Outcome.bind_ne_panic (BlockProcessor.recoverSenders_ne_panic _ _ _) fun senders _ => ?_
      cases header : ledger.provider.getHeaderByHash block.header.parentHash with
      | panic => exact absurd header (getHeaderByHash_ne_panic _ _)
      | err error => simp [transact, header]
      | ok parent =>
        obtain ⟨error, refused⟩ := validateHeader_invalid rules.host rules.validator parent invalid
        simp [transact, header, refused]
    · obtain ⟨_, _, _, _, commit, _⟩ := judge_ok committed
      have within := commit.gasWithin
      bv_omega
  obtain ⟨error, rejected⟩ := rejected
  rw [absorb, rejected]

end Invalid

theorem Ledger.Steady.next {rules : Rules} {ledger ledger' : Ledger} {block : Block} {following : U64}
    (steady : ledger.Steady rules) (absorbed : absorb rules ledger block = some ledger')
    (follows : nextNumber rules.host.overflowChecks block.header.number = some following) :
    ledger'.Steady rules := by
  obtain ⟨⟨chain, holds⟩, counts⟩ := steady
  rcases absorb_cases absorbed with ⟨output, committed⟩ | rfl
  · refine ⟨⟨chain ++ [block], holds.commit committed⟩, following, ?_⟩
    rw [(judge_number committed).2, follows]
  · exact ⟨⟨chain, holds⟩, counts⟩

/-- The first replica is the second one with one more block in its queue, ahead of the head. -/
structure Shadowed (extra : PendingBlock) (first second : Replica) : Prop where
  ledgers : first.ledger = second.ledger
  absent : second.pending.lookup extra.block.header.number = none
  queued : first.pending = second.pending.insert extra.block.header.number extra
  ahead : second.ledger.chainHead.number.toNat < extra.block.header.number.toNat

/-- A drain from `number` on would take a block off the queue and come to an entry right behind it,
or to the end of all numbers. -/
def Queue.Exposes (checks : Bool) (extra : PendingBlock) (number : U64) (pending : Queue) : Prop :=
  pending.lookup extra.block.header.number = some extra ∧
    (∀ other : U64, number.toNat ≤ other.toNat → other.toNat ≤ extra.block.header.number.toNat → other ∈ pending) ∧
    ∀ following, nextNumber checks extra.block.header.number = some following → following ∈ pending

/-- Two results of which the second does without the extra block, if it still matters. -/
def Parallel {α : Type} (extra : PendingBlock) : Option (α × Replica) → Option (α × Replica) → Prop :=
  Option.Rel fun first second => first.2 = second.2 ∨ Shadowed extra first.2 second.2

theorem Parallel.map {α β : Type} {extra : PendingBlock} {first second : Option (α × Replica)}
    (parallel : Parallel extra first second) (f : α → β) :
    Parallel extra (first.map fun result => (f result.1, result.2))
      (second.map fun result => (f result.1, result.2)) := by
  cases parallel with
  | some related => exact .some related
  | none => exact .none

section Drain
variable {rules : Rules} {extra : PendingBlock}

/-- The extra block comes up: it is rejected, and there is nothing behind it. -/
theorem Shadowed.drain_extra {first second : Replica} {fuel fuel' : Nat} (shadowed : Shadowed extra first second)
    (invalid : extra.block.header.gasLimit < extra.block.header.gasUsed) (steady : second.ledger.Steady rules)
    (enough : first.pending.keys.card ≤ fuel)
    (spared : ¬ first.pending.Exposes rules.host.overflowChecks extra extra.block.header.number) :
    Parallel extra (first.drain rules fuel extra.block.header.number)
      (second.drain rules fuel' extra.block.header.number) := by
  obtain ⟨ledgers, absent, queued, ahead⟩ := shadowed
  have found : first.pending.lookup extra.block.header.number = some extra := by
    rw [queued, HashMap.lookup_insert_ite, if_pos rfl]
  have only : ∀ other : U64, extra.block.header.number.toNat ≤ other.toNat →
      other.toNat ≤ extra.block.header.number.toNat → other ∈ first.pending := by
    intro other above below
    rw [BitVec.eq_of_toNat_eq (Nat.le_antisymm below above)]
    exact Finmap.mem_of_lookup_eq_some found
  obtain ⟨following, follows, clear⟩ : ∃ following,
      nextNumber rules.host.overflowChecks extra.block.header.number = some following ∧ following ∉ first.pending := by
    by_contra nothing
    refine spared ⟨found, only, fun following follows => ?_⟩
    by_contra clear
    exact nothing ⟨following, follows, clear⟩
  obtain ⟨rest, _, _, drains⟩ := Replica.drain_of_found rules _ found enough
  have erased : first.pending.erase extra.block.header.number = second.pending := by
    rw [queued, HashMap.erase_insert_self absent]
  have behind : second.pending.lookup following = none := by
    rw [← erased, HashMap.lookup_erase_ite]
    split
    · rfl
    · exact Finmap.lookup_eq_none.mpr clear
  have same : (⟨first.ledger, first.pending.erase extra.block.header.number⟩ : Replica) = second := by
    rw [erased, ledgers]
  rw [drains, Replica.drain_of_absent absent, ledgers, steady.absorb_invalid invalid, Option.bind_some, follows,
    Option.bind_some, ← ledgers, same, Replica.drain_of_absent behind]
  exact .some (.inl rfl)

/-- A round of the drain that takes the same entry off both queues. -/
theorem Shadowed.erase {first second : Replica} {number : U64} {entry : PendingBlock} {ledger : Ledger}
    (shadowed : Shadowed extra first second) (below : number.toNat < extra.block.header.number.toNat)
    (numbered : entry.block.header.number = number)
    (absorbed : absorb rules second.ledger entry.block = some ledger) :
    Shadowed extra ⟨ledger, first.pending.erase number⟩ ⟨ledger, second.pending.erase number⟩ := by
  have different : number ≠ extra.block.header.number := fun same => by rw [same] at below; omega
  refine ⟨rfl, ?_, ?_, ?_⟩
  · rw [HashMap.lookup_erase_ite, shadowed.absent, ite_self]
  · rw [shadowed.queued, HashMap.erase_insert_of_ne different]
  · rcases absorb_cases absorbed with ⟨output, committed⟩ | rfl
    · rw [(judge_number committed).2, numbered]
      exact below
    · exact shadowed.ahead

theorem Queue.Exposes.of_erase {checks : Bool} {number following : U64} {pending : Queue} {entry : PendingBlock}
    (found : pending.lookup number = some entry) (next : following.toNat = number.toNat + 1)
    (exposes : Queue.Exposes checks extra following (pending.erase number)) :
    pending.Exposes checks extra number := by
  obtain ⟨queued, all, behind⟩ := exposes
  refine ⟨(lookup_of_erase queued).2, fun other above below => ?_, fun after follows => ?_⟩
  · by_cases here : other = number
    · rw [here]
      exact Finmap.mem_of_lookup_eq_some found
    · exact (Finmap.mem_erase.mp (all other (by bv_omega) below)).2
  · exact (Finmap.mem_erase.mp (behind after follows)).2

theorem Shadowed.drain {first second : Replica} {fuel fuel' : Nat} {number : U64}
    (shadowed : Shadowed extra first second) (invalid : extra.block.header.gasLimit < extra.block.header.gasUsed)
    (steady : second.ledger.Steady rules)
    (keyed : second.pending.Keyed) (enough : first.pending.keys.card ≤ fuel) (enough' : second.pending.keys.card ≤ fuel')
    (passed : second.ledger.chainHead.number.toNat < number.toNat)
    (before : number.toNat ≤ extra.block.header.number.toNat)
    (spared : ¬ first.pending.Exposes rules.host.overflowChecks extra number) :
    Parallel extra (first.drain rules fuel number) (second.drain rules fuel' number) := by
  induction fuel generalizing first second fuel' number with
  | zero =>
    have found : first.pending.lookup extra.block.header.number = some extra := by
      rw [shadowed.queued, HashMap.lookup_insert_ite, if_pos rfl]
    have shrunk := HashMap.keys_card_erase found
    omega
  | succ fuel ih =>
    by_cases here : number = extra.block.header.number
    · rw [here] at spared ⊢
      exact shadowed.drain_extra invalid steady enough spared
    · have same : first.pending.lookup number = second.pending.lookup number := by
        rw [shadowed.queued, HashMap.lookup_insert_ite, if_neg here]
      cases found : second.pending.lookup number with
      | none =>
        rw [Replica.drain_of_absent (same.trans found), Replica.drain_of_absent found]
        exact .some (.inr shadowed)
      | some entry =>
        obtain ⟨rest, same₁, less₁, drains₁⟩ := Replica.drain_of_found rules _ (same.trans found) enough
        obtain ⟨rest', _, less₂, drains₂⟩ := Replica.drain_of_found rules _ found enough'
        rw [drains₁, drains₂, shadowed.ledgers]
        cases absorbed : absorb rules second.ledger entry.block with
        | none => exact .none
        | some ledger =>
          simp only [Option.bind_some]
          cases follows : nextNumber rules.host.overflowChecks number with
          | none => exact .none
          | some following =>
            have next : following.toNat = number.toNat + 1 := by
              rw [nextNumber_eq_some follows]
              bv_omega
            have number' := keyed number entry found
            have below : number.toNat < extra.block.header.number.toNat := by bv_omega
            have shadowed' := shadowed.erase below number' absorbed
            have steady' := steady.next absorbed (number'.symm ▸ follows)
            have passed' : ledger.chainHead.number.toNat < following.toNat := by
              rcases absorb_cases absorbed with ⟨output, committed⟩ | rfl
              · rw [(judge_number committed).2, number', next]
                omega
              · omega
            obtain rfl : fuel = rest := by omega
            have drained := ih shadowed' steady' (keyed.erase number) less₁ less₂ passed' (by omega)
              fun exposes => spared (exposes.of_erase (same.trans found) next)
            exact drained.map (entry.block :: ·)

end Drain

/-- Handling a message takes a block off the queue that has an entry right behind it. -/
def Replica.Exposes (checks : Bool) (extra : PendingBlock) (replica : Replica) (message : PendingBlock) : Prop :=
  replica.ledger.chainHead.number < message.block.header.number ∧
    Queue.Exposes checks extra (replica.ledger.chainHead.number + 1)
      (replica.pending.insert message.block.header.number message)

section Message
variable {rules : Rules} {extra message : PendingBlock} {first second : Replica}

theorem Parallel.refl {α : Type} (result : Option (α × Replica)) : Parallel extra result result := by
  cases result with
  | some result => exact .some (.inl rfl)
  | none => exact .none

theorem Shadowed.receive (shadowed : Shadowed extra first second)
    (invalid : extra.block.header.gasLimit < extra.block.header.gasUsed) (steady : second.ledger.Steady rules)
    (sound : second.Sound rules) (spared : ¬ first.Exposes rules.host.overflowChecks extra message) :
    Parallel extra (first.receive rules message) (second.receive rules message) := by
  obtain ⟨ledgers, absent, queued, ahead⟩ := shadowed
  obtain ⟨expected, next, _⟩ := sound.gap
  have next' : nextNumber rules.host.overflowChecks first.ledger.chainHead.number = some expected := by
    rw [ledgers, next]
  by_cases stale : message.block.header.number ≤ second.ledger.chainHead.number
  · rw [Replica.receive_stale next stale, Replica.receive_stale next' (by rw [ledgers]; exact stale)]
    exact .some (.inr ⟨ledgers, absent, queued, ahead⟩)
  · rw [Replica.receive_fresh next stale, Replica.receive_fresh next' (by rw [ledgers]; exact stale)]
    by_cases rival : message.block.header.number = extra.block.header.number
    · have same : first.pending.insert message.block.header.number message =
          second.pending.insert message.block.header.number message := by
        rw [queued, rival, Finmap.insert_insert]
      rw [same, ledgers]
      exact .refl _
    · have shadowed : Shadowed extra
          ⟨first.ledger, first.pending.insert message.block.header.number message⟩
          ⟨second.ledger, second.pending.insert message.block.header.number message⟩ := by
        refine ⟨ledgers, ?_, ?_, ahead⟩
        · rw [HashMap.lookup_insert_ite, if_neg (Ne.symm rival), absent]
        · rw [queued, Finmap.insert_insert_of_ne _ (Ne.symm rival)]
      have start : expected.toNat = second.ledger.chainHead.number.toNat + 1 := by
        rw [nextNumber_eq_some next]
        bv_omega
      have passed : second.ledger.chainHead.number.toNat < expected.toNat := by omega
      have clear : ¬ Queue.Exposes rules.host.overflowChecks extra expected
          (first.pending.insert message.block.header.number message) := by
        intro exposes
        rw [nextNumber_eq_some next'] at exposes
        exact spared ⟨by rw [ledgers]; exact BitVec.not_le.mp stale, exposes⟩
      have drained := shadowed.drain invalid steady (sound.keyed.insert message) le_rfl le_rfl passed (by omega) clear
      exact drained.map Delivery.drained

/-- The arrival of the extra block, against no message at all. -/
theorem Replica.Sound.receive_extra (sound : second.Sound rules) (steady : second.ledger.Steady rules)
    (invalid : extra.block.header.gasLimit < extra.block.header.gasUsed)
    (absent : second.pending.lookup extra.block.header.number = none)
    (spared : ¬ second.Exposes rules.host.overflowChecks extra extra) :
    ∃ delivery after, second.receive rules extra = some (delivery, after) ∧
      (after = second ∨ Shadowed extra after second) := by
  obtain ⟨expected, next, gap⟩ := sound.gap
  by_cases stale : extra.block.header.number ≤ second.ledger.chainHead.number
  · exact ⟨_, second, Replica.receive_stale next stale, .inl rfl⟩
  · have shadowed : Shadowed extra ⟨second.ledger, second.pending.insert extra.block.header.number extra⟩ second :=
      ⟨rfl, absent, rfl, by bv_omega⟩
    have start : expected.toNat = second.ledger.chainHead.number.toNat + 1 := by
      rw [nextNumber_eq_some next]
      bv_omega
    have clear : ¬ Queue.Exposes rules.host.overflowChecks extra expected
        (second.pending.insert extra.block.header.number extra) := by
      intro exposes
      rw [nextNumber_eq_some next] at exposes
      exact spared ⟨BitVec.not_le.mp stale, exposes⟩
    have drained := shadowed.drain invalid steady sound.keyed le_rfl le_rfl (by omega) (by bv_omega) clear
    rw [Replica.drain_of_absent gap] at drained
    rw [Replica.receive_fresh next stale]
    generalize Replica.drain rules _ expected _ = result at drained ⊢
    cases drained with
    | some related => exact ⟨_, _, rfl, related⟩

end Message

section Reached
variable {host : Host} {genesis : Genesis} {processor first second : BlockProcessor} {extra : PendingBlock}

theorem Reach.steady (reach : Reach host genesis processor) : processor.ledger.Steady (genesis.rules host) := by
  obtain ⟨holds, _⟩ := reach.holds
  obtain ⟨expected, next, _⟩ := reach.sound.gap
  exact ⟨⟨_, holds⟩, expected, next⟩

/-- As long as a block waits in the queue, no message takes it off with an entry right behind it. -/
def Spared (host : Host) (extra : PendingBlock) : BlockProcessor → List PendingBlock → Prop
  | _, [] => True
  | processor, message :: rest =>
    ¬ processor.replica.Exposes host.overflowChecks extra message ∧
      ∀ delivery after, deliver host processor message = some (delivery, after) →
        after.pendingMap.lookup extra.block.header.number = some extra → Spared host extra after rest

/-- What a run ends with, apart from its queue and its counters. -/
def outcome (run : Option (List Delivery × BlockProcessor)) : Option (ChainHead × ChainHead × InMemoryProvider) :=
  run.map fun ended => (ended.2.chainHead, ended.2.sharedHead, ended.2.pipeline.provider)

theorem outcome_congr (reach : Reach host genesis first) (reach' : Reach host genesis second)
    (same : first.replica = second.replica) (messages : List PendingBlock) :
    outcome (deliverAll host first messages) = outcome (deliverAll host second messages) := by
  have equal : ((deliverAll host first messages).map fun run => (run.1, run.2.replica)) =
      (deliverAll host second messages).map fun run => (run.1, run.2.replica) := by
    rw [← reach.receiveAll_eq, ← reach'.receiveAll_eq, same]
  have seen := congrArg (Option.map fun run => (run.2.ledger.chainHead, run.2.ledger.sharedHead, run.2.ledger.provider))
    equal
  simp only [Option.map_map] at seen
  exact seen

theorem outcome_cons {message : PendingBlock} {step : Delivery × BlockProcessor}
    (delivered : deliver host processor message = some step) (rest : List PendingBlock) :
    outcome (deliverAll host processor (message :: rest)) = outcome (deliverAll host step.2 rest) := by
  rw [deliverAll_cons delivered]
  cases deliverAll host step.2 rest <;> rfl

theorem outcome_append (before rest : List PendingBlock) :
    outcome (deliverAll host processor (before ++ rest)) =
      (deliverAll host processor before).bind fun run => outcome (deliverAll host run.2 rest) := by
  rw [deliverAll_append]
  cases deliverAll host processor before with
  | none => rfl
  | some run =>
    rw [Option.bind_some, Option.bind_some]
    cases deliverAll host run.2 rest <;> rfl

theorem outcome_shadowed (invalid : extra.block.header.gasLimit < extra.block.header.gasUsed)
    (messages : List PendingBlock) (reach : Reach host genesis first) (reach' : Reach host genesis second)
    (shadowed : Shadowed extra first.replica second.replica) (spared : Spared host extra first messages) :
    outcome (deliverAll host first messages) = outcome (deliverAll host second messages) := by
  induction messages generalizing first second with
  | nil =>
    have ledgers := shadowed.ledgers
    exact congrArg some (Prod.ext (congrArg Ledger.chainHead ledgers)
      (Prod.ext (congrArg Ledger.sharedHead ledgers) (congrArg Ledger.provider ledgers)))
  | cons message rest ih =>
    have parallel := shadowed.receive invalid reach'.steady reach'.sound spared.1
    rw [reach.receive_eq, reach'.receive_eq] at parallel
    cases here : deliver host first message with
    | none => cases there : deliver host second message with
      | none =>
        rw [deliverAll, deliverAll, here, there]
      | some step' =>
        rw [here, there] at parallel
        cases parallel
    | some step => cases there : deliver host second message with
      | none =>
        rw [here, there] at parallel
        cases parallel
      | some step' =>
        rw [here, there] at parallel
        rw [outcome_cons here, outcome_cons there]
        have reach₁ := reach.next here
        have reach₂ := reach'.next there
        cases parallel with
        | some related =>
          rcases related with same | shadowed'
          · exact outcome_congr reach₁ reach₂ same rest
          · refine ih reach₁ reach₂ shadowed' (spared.2 _ _ here ?_)
            have queued : step.2.pendingMap = step'.2.pendingMap.insert extra.block.header.number extra :=
              shadowed'.queued
            rw [queued, HashMap.lookup_insert_ite, if_pos rfl]

/-- A block that no state can commit changes nothing: the heads and the provider are those of the
run without it, if it is never drained with an entry right behind it. -/
theorem invalid_block_no_effect (reach : Reach host genesis processor)
    (invalid : extra.block.header.gasLimit < extra.block.header.gasUsed) (before after : List PendingBlock)
    (absent : ∀ deliveries arrival, deliverAll host processor before = some (deliveries, arrival) →
      arrival.pendingMap.lookup extra.block.header.number = none)
    (spared : ∀ deliveries arrival, deliverAll host processor before = some (deliveries, arrival) →
      Spared host extra arrival (extra :: after)) :
    outcome (deliverAll host processor (before ++ extra :: after)) =
      outcome (deliverAll host processor (before ++ after)) := by
  rw [outcome_append, outcome_append]
  cases ran : deliverAll host processor before with
  | none => rfl
  | some run =>
    rw [Option.bind_some, Option.bind_some]
    have reach' := reach.run ran
    have spared' := spared _ _ ran
    obtain ⟨delivery, replica, received, related⟩ :=
      reach'.sound.receive_extra reach'.steady invalid (absent _ _ ran) spared'.1
    rw [reach'.receive_eq] at received
    obtain ⟨step, delivered, same⟩ := Option.map_eq_some_iff.mp received
    cases same
    rw [outcome_cons delivered]
    rcases related with same | shadowed
    · exact outcome_congr (reach'.next delivered) reach' same after
    · refine outcome_shadowed invalid after (reach'.next delivered) reach' shadowed (spared'.2 _ _ delivered ?_)
      have queued : step.2.pendingMap = run.2.pendingMap.insert extra.block.header.number extra := shadowed.queued
      rw [queued, HashMap.lookup_insert_ite, if_pos rfl]

/-- A block in the place of the first sample block that says it used 101 of 100 gas. -/
def sampleInvalid : PendingBlock :=
  ⟨sampleBlock 0xac323fb52305d0e53e6ecd545dc3d05abf57d846260129534c1966d2deeef619 101 1 [], ⟨0⟩⟩

/-- Nothing waits behind the invalid block when it comes, and the valid one takes its place. -/
theorem invalid_block_no_effect_alone :
    outcome (deliverAll sampleHost (sampleGenesis.processor sampleHost) ([] ++ sampleInvalid :: [sampleFirst])) =
      outcome (deliverAll sampleHost (sampleGenesis.processor sampleHost) ([] ++ [sampleFirst])) := by
  refine invalid_block_no_effect sample_reach (by decide) [] [sampleFirst] ?_ ?_
  · intro deliveries arrival ran
    cases ran
    rfl
  · intro deliveries arrival ran
    cases ran
    refine ⟨?_, fun delivery after delivered waiting => ?_⟩
    · rintro ⟨_, _, _, behind⟩
      have successor := behind 2 (by decide)
      revert successor
      decide
    · have gone : ((deliver sampleHost (sampleGenesis.processor sampleHost) sampleInvalid).map
          fun step => step.2.pendingMap.lookup 1) = some none := by decide +kernel
      rw [delivered] at gone
      have empty := Option.some.inj gone
      change after.pendingMap.lookup 1 = none at empty
      change after.pendingMap.lookup 1 = some sampleInvalid at waiting
      rw [empty] at waiting
      cases waiting

/-- The second sample block waits for the first. Without the invalid block both are committed; with
it the second one is drained behind it, rejected and lost, and the head stays at the first. -/
theorem invalid_block_drains_successor :
    Reach sampleHost sampleGenesis (sampleGenesis.processor sampleHost) ∧
    sampleInvalid.block.header.gasLimit < sampleInvalid.block.header.gasUsed ∧
    ((deliverAll sampleHost (sampleGenesis.processor sampleHost) [sampleSecond]).map
      fun run => run.2.pendingMap.lookup sampleInvalid.block.header.number) = some none ∧
    ((deliverAll sampleHost (sampleGenesis.processor sampleHost) ([sampleSecond] ++ sampleInvalid :: [sampleFirst])).map
      fun run => run.2.chainHead.number) = some 1 ∧
    ((deliverAll sampleHost (sampleGenesis.processor sampleHost) ([sampleSecond] ++ [sampleFirst])).map
      fun run => run.2.chainHead.number) = some 2 :=
  ⟨sample_reach, by decide, by decide +kernel, by decide +kernel, by decide +kernel⟩

end Reached

end MiniEthNode
