import MiniEthNode.Processor.Stepwise

namespace MiniEthNode
open Rust BlockProcessor

/-- A processor between two blocks: all that was executed, and nothing else, makes its ledger. -/
structure Settled (host : Host) (genesis : Genesis) (executed : List Block) (processor : BlockProcessor) : Prop where
  rules : processor.rules host = genesis.rules host
  committed : Committed (genesis.rules host) (genesis.ledger host) executed processor.ledger

/-- A block has been executed, and the shared head does not have it yet. -/
def Underway (host : Host) (genesis : Genesis) (executed : List Block) (processor : BlockProcessor)
    (point : ProcessPoint) : Prop :=
  ∃ origin before block, executed = before ++ [block] ∧ Settled host genesis before origin ∧
    processBlock host block origin = point.rest host processor ∧ processor.sharedHead = origin.sharedHead

/-- What the blocks executed so far have to do with the processor, wherever `process_block` is. -/
def ProcessPoint.InPlace (host : Host) (genesis : Genesis) (executed : List Block) (processor : BlockProcessor)
    (point : ProcessPoint) : Prop :=
  match point with
  | start _ | shared _ => Settled host genesis executed processor
  | checked block => Settled host genesis executed processor ∧
      processBlock host block.block processor = point.rest host processor
  | .executed .. | .inserted .. | .headed .. => Underway host genesis executed processor point

/-- The block whose execution has led to a point. -/
def ProcessPoint.newly : ProcessPoint → List Block
  | executed block _ => [block]
  | start _ | checked _ | inserted .. | headed .. | shared _ => []

section InPlace
variable {host : Host} {genesis : Genesis} {executed : List Block} {processor after : BlockProcessor}

theorem Settled.closed (settled : Settled host genesis executed processor) : processor.ledger.Closed := by
  have kept {before after : Ledger} {blocks : List Block}
      (committed : Committed (genesis.rules host) before blocks after) (closed : before.Closed) : after.Closed := by
    induction committed with
    | nil => exact closed
    | cons step _ ih => exact ih (judge_closed closed step)
  exact kept settled.committed rfl

theorem Settled.holds (settled : Settled host genesis executed processor) :
    processor.ledger.Holds host (genesis.block :: executed) :=
  Ledger.Holds.committed settled.committed (genesis.holds host)

/-- The shared head has the number of the last block that was executed. -/
theorem Settled.count (settled : Settled host genesis executed processor) :
    processor.sharedHead.number.toNat = executed.length := by
  have height : executed.length + 1 = processor.chainHead.number.toNat + 1 := settled.holds.height
  have shared : processor.sharedHead = processor.chainHead := settled.holds.shared
  rw [shared]
  omega

/-- The executed blocks are those with the numbers from 1 on. -/
theorem Settled.numbers (settled : Settled host genesis executed processor) :
    (executed.map fun block => block.header.number.toNat) = List.range' 1 executed.length := by
  refine List.ext_getElem (by simp) fun i inside _ => ?_
  rw [List.length_map] at inside
  have numbered := settled.holds.numbered (i + 1) executed[i] (by simp [inside])
  rw [List.getElem_map, List.getElem_range', numbered]
  omega

theorem Settled.of_ledger (settled : Settled host genesis executed processor) (ledger : after.ledger = processor.ledger)
    (rules : after.rules host = processor.rules host) : Settled host genesis executed after where
  rules := rules.trans settled.rules
  committed := ledger ▸ settled.committed

theorem Settled.rejected (settled : Settled host genesis executed processor) {block : Block} {error : ProcessorError}
    (failed : processBlock host block processor = .err (error, after)) :
    Settled host genesis executed after ∧ after.sharedHead = processor.sharedHead := by
  rw [processBlock_eq host block settled.closed] at failed
  split at failed
  · cases failed
  · cases failed
    exact ⟨settled.of_ledger rfl rfl, rfl⟩
  · cases failed

theorem Settled.processed (settled : Settled host genesis executed processor) {block : Block}
    (ran : processBlock host block processor = .ok ((), after)) :
    Settled host genesis (executed ++ [block]) after := by
  rw [processBlock_eq host block settled.closed, settled.rules] at ran
  split at ran
  · rename_i output ledger judged
    cases ran
    exact ⟨settled.rules, settled.committed.trans (.cons judged .nil)⟩
  · cases ran
  · cases ran

theorem checkSenders_ok {block : Block} {checked : BlockWithSenders}
    (ran : checkSenders host block processor = .ok (checked, after)) : after = processor ∧ checked.block = block := by
  obtain ⟨_, between, first, second⟩ := Exec.bind_eq_ok.mp ran
  obtain ⟨built, rfl⟩ := Exec.read_eq_ok.mp second
  obtain ⟨senders, _, same⟩ := Outcome.bind_eq_ok.mp built
  cases same
  rw [checkBlock_eq] at first
  split at first
  · cases first
    exact ⟨rfl, rfl⟩
  · cases first
  · cases first

theorem executeChecked_ok {block : BlockWithSenders} {output : ExecutionOutput}
    (ran : executeChecked host block processor = .ok (output, after)) : after.sharedHead = processor.sharedHead := by
  obtain ⟨result, between, first, second⟩ := Exec.bind_eq_ok.mp ran
  have kept : between.sharedHead = processor.sharedHead := by
    unfold Exec.attempt onPipeline Exec.focus at first
    cases executed : Pipeline.execute host block processor.pipeline with
    | panic => simp [executed] at first
    | err failure =>
      simp only [executed, Outcome.ok.injEq, Prod.mk.injEq] at first
      rw [← first.2]
    | ok value =>
      simp only [executed, Outcome.ok.injEq, Prod.mk.injEq] at first
      rw [← first.2]
  cases result with
  | error error => cases second
  | ok value =>
    cases second
    exact kept

/-- A step within `process_block`. Only the write of the shared head changes it, and that raises its number. -/
theorem ProcessPoint.InPlace.piece {point later : ProcessPoint} (place : point.InPlace host genesis executed processor)
    (stepped : point.piece host processor = .ok (some later, after)) :
    later.InPlace host genesis (executed ++ later.newly) after ∧
      processor.sharedHead.number.toNat ≤ after.sharedHead.number.toNat := by
  have rest := point.rest_eq host processor
  rw [stepped] at rest
  dsimp only at rest
  cases point with
  | start block =>
    obtain ⟨checked, between, first, same⟩ := Exec.bind_eq_ok.mp stepped
    cases same
    obtain ⟨rfl, here⟩ := checkSenders_ok first
    refine ⟨?_, le_rfl⟩
    rw [newly, List.append_nil]
    exact ⟨place, by rw [here]; exact rest⟩
  | checked block =>
    obtain ⟨output, between, first, same⟩ := Exec.bind_eq_ok.mp stepped
    cases same
    obtain ⟨settled, begun⟩ := place
    have kept := executeChecked_ok first
    exact ⟨⟨processor, executed, block.block, rfl, settled, begun.trans rest, kept⟩, by rw [kept]⟩
  | executed block output =>
    obtain ⟨origin, before, block', same, settled, begun, kept⟩ := place
    rw [ProcessPoint.piece, Exec.bind_ok (insertExecuted_eq host block processor)] at stepped
    cases stepped
    refine ⟨?_, le_rfl⟩
    rw [newly, List.append_nil]
    exact ⟨origin, before, block', same, settled, begun.trans rest, kept⟩
  | inserted block output hash =>
    obtain ⟨origin, before, block', same, settled, begun, kept⟩ := place
    rw [ProcessPoint.piece, Exec.bind_run, updateHead_eq] at stepped
    cases sum : add (ε := ProcessorError) host.overflowChecks processor.chainHead.totalDifficulty
      (block.header.gasUsed.setWidth 128) with
    | panic => simp [sum] at stepped
    | err error => simp [sum] at stepped
    | ok totalDifficulty =>
      rw [sum] at stepped
      cases stepped
      refine ⟨?_, le_rfl⟩
      rw [newly, List.append_nil]
      exact ⟨origin, before, block', same, settled, begun.trans rest, kept⟩
  | headed head output =>
    obtain ⟨origin, before, block, rfl, settled, begun, kept⟩ := place
    cases stepped
    have committed := settled.processed begun
    have shared : Settled host genesis (before ++ [block]) { processor with sharedHead := head } :=
      committed.of_ledger rfl rfl
    have count := shared.count
    have before := settled.count
    rw [List.length_append, List.length_singleton] at count
    rw [newly, List.append_nil, kept]
    exact ⟨shared, by dsimp only at count ⊢; omega⟩
  | shared output => cases stepped

theorem ProcessPoint.InPlace.returned {point : ProcessPoint} (place : point.InPlace host genesis executed processor)
    (ended : point.piece host processor = .ok (none, after)) :
    Settled host genesis executed after ∧ after.sharedHead = processor.sharedHead := by
  cases point with
  | start | checked | executed | inserted =>
    obtain ⟨_, _, _, same⟩ := Exec.bind_eq_ok.mp ended
    cases same
  | headed head output => cases ended
  | shared output =>
    cases ended
    exact ⟨place.of_ledger rfl rfl, rfl⟩

/-- Once a block is executed nothing rejects it any more. -/
theorem ProcessPoint.InPlace.rejected {point : ProcessPoint} {error : ProcessorError}
    (place : point.InPlace host genesis executed processor)
    (failed : point.piece host processor = .err (error, after)) :
    Settled host genesis executed after ∧ after.sharedHead = processor.sharedHead := by
  have rest := point.rest_eq host processor
  rw [failed] at rest
  cases point with
  | start block => exact Settled.rejected place rest
  | checked block => exact place.1.rejected (place.2.trans rest)
  | executed block output =>
    rw [ProcessPoint.piece, Exec.bind_ok (insertExecuted_eq host block processor)] at failed
    cases failed
  | inserted block output hash =>
    rw [ProcessPoint.piece, Exec.bind_run, updateHead_eq] at failed
    cases sum : add (ε := ProcessorError) host.overflowChecks processor.chainHead.totalDifficulty
      (block.header.gasUsed.setWidth 128) with
    | panic => simp [sum] at failed
    | err error => exact absurd sum add_ne_err
    | ok totalDifficulty => simp [sum] at failed
  | headed head output => cases failed
  | shared output => cases failed

def ProcessorPoint.InPlace (host : Host) (genesis : Genesis) (executed : List Block) (processor : BlockProcessor) :
    ProcessorPoint → Prop
  | process _ _ point => point.InPlace host genesis executed processor
  | receive | handle .. | answer _ | tryDrain _ | drain .. | turn .. | ended => Settled host genesis executed processor

def ProcessorPoint.newly : ProcessorPoint → List Block
  | process _ _ point => point.newly
  | receive | handle .. | answer _ | tryDrain _ | drain .. | turn .. | ended => []

theorem queueBlock_settled (settled : Settled host genesis executed processor) (block : Block) (peerId : PeerId) :
    match queueBlock host block peerId processor with
    | .ok (_, after) | .err (_, after) =>
      Settled host genesis executed after ∧ after.sharedHead = processor.sharedHead
    | .panic => True := by
  rw [queueBlock, Exec.get_bind, lift_nextNumber_bind]
  cases nextNumber host.overflowChecks processor.chainHead.number with
  | none => trivial
  | some expected =>
    simp only [countMetrics, Exec.modify_bind]
    by_cases stale : block.header.number ≤ processor.chainHead.number
    · rw [if_pos stale]
      exact ⟨settled.of_ledger rfl rfl, rfl⟩
    · rw [if_neg stale]
      exact ⟨settled.of_ledger rfl rfl, rfl⟩

/-- A step of the task. -/
theorem ProcessorPoint.InPlace.advance {point later : ProcessorPoint}
    (place : point.InPlace host genesis executed processor)
    (advanced : point.advance host processor = some (later, after)) :
    later.InPlace host genesis (executed ++ later.newly) after ∧
      processor.sharedHead.number.toNat ≤ after.sharedHead.number.toNat := by
  have settled {later : ProcessorPoint} {after : BlockProcessor} (none : later.newly = [])
      (place : later.InPlace host genesis executed after) (same : after.sharedHead = processor.sharedHead) :
      later.InPlace host genesis (executed ++ later.newly) after ∧
        processor.sharedHead.number.toNat ≤ after.sharedHead.number.toNat := by
    rw [none, List.append_nil, same]
    exact ⟨place, le_rfl⟩
  cases point with
  | receive | answer | ended => cases advanced
  | handle block peerId =>
    have queued := queueBlock_settled place block peerId
    simp only [ProcessorPoint.advance] at advanced
    split at advanced
    · rename_i ran
      cases advanced
      rw [ran] at queued
      exact settled rfl queued.1 queued.2
    · rename_i ran
      cases advanced
      rw [ran] at queued
      exact settled rfl queued.1 queued.2
    · cases advanced
  | tryDrain last =>
    obtain ⟨next, _, same⟩ := Option.map_eq_some_iff.mp advanced
    cases same
    exact settled rfl place rfl
  | drain last next =>
    simp only [ProcessorPoint.advance] at advanced
    split at advanced
    · cases last with
      | true =>
        cases advanced
        exact settled rfl (Settled.of_ledger place rfl rfl) rfl
      | false =>
        cases advanced
        exact settled rfl place rfl
    · cases advanced
      exact settled rfl (Settled.of_ledger place rfl rfl) rfl
  | process last next point =>
    simp only [ProcessorPoint.advance] at advanced
    split at advanced
    · rename_i stepped
      cases advanced
      exact ProcessPoint.InPlace.piece place stepped
    · rename_i ended
      cases advanced
      obtain ⟨place, same⟩ := ProcessPoint.InPlace.returned place ended
      exact settled rfl place same
    · rename_i failed
      cases advanced
      obtain ⟨place, same⟩ := ProcessPoint.InPlace.rejected place failed
      exact settled rfl place same
    · cases advanced
  | turn last next =>
    obtain ⟨following, _, same⟩ := Option.map_eq_some_iff.mp advanced
    cases same
    exact settled rfl place rfl

theorem ProcessorPoint.advance_last {point later : ProcessorPoint}
    (advanced : point.advance host processor = some (later, after)) :
    later.last = point.last ∧ ∀ address, later ≠ .answer address := by
  cases point with
  | receive | answer | ended => cases advanced
  | handle block peerId =>
    simp only [ProcessorPoint.advance] at advanced
    split at advanced <;> cases advanced <;> exact ⟨rfl, by simp⟩
  | tryDrain last =>
    obtain ⟨next, _, same⟩ := Option.map_eq_some_iff.mp advanced
    cases same
    exact ⟨rfl, by simp⟩
  | drain last next =>
    simp only [ProcessorPoint.advance] at advanced
    split at advanced
    · cases last <;> cases advanced <;> exact ⟨rfl, by simp⟩
    · cases advanced
      exact ⟨rfl, by simp⟩
  | process last next point =>
    simp only [ProcessorPoint.advance] at advanced
    split at advanced <;> cases advanced <;> exact ⟨rfl, by simp⟩
  | turn last next =>
    obtain ⟨following, _, same⟩ := Option.map_eq_some_iff.mp advanced
    cases same
    exact ⟨rfl, by simp⟩

end InPlace

end MiniEthNode
