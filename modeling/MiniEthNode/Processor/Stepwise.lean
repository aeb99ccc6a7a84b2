import MiniEthNode.Processor.Drain

namespace MiniEthNode
open Rust

/-- Where `process_block` is. -/
inductive ProcessPoint where
  | start (block : Block)
  | checked (block : BlockWithSenders)
  | executed (block : Block) (output : ExecutionOutput)
  | inserted (block : Block) (output : ExecutionOutput) (hash : B256)
  | headed (head : ChainHead) (output : ExecutionOutput)
  | shared (output : ExecutionOutput)

/-- Where `run` is. The drain of a `Shutdown` or of a closed channel is the last one. -/
inductive ProcessorPoint where
  | receive
  | handle (block : Block) (peerId : PeerId)
  | answer (address : Address)
  | tryDrain (last : Bool)
  | drain (last : Bool) (next : U64)
  | process (last : Bool) (next : U64) (point : ProcessPoint)
  | turn (last : Bool) (next : U64)
  | ended

namespace BlockProcessor

def checkSenders (host : Host) (block : Block) : Exec BlockProcessor ProcessorError BlockWithSenders := do
  checkBlock host block
  Exec.read fun processor => buildBlockWithSenders host processor block

def executeChecked (host : Host) (block : BlockWithSenders) : Exec BlockProcessor ProcessorError ExecutionOutput := do
  let result ← Exec.attempt (onPipeline (Pipeline.execute host block))
  match result with
  | .error error => do
    countRejectedExecution
    Exec.throw (.execution error)
  | .ok output => pure output

def insertExecuted (host : Host) (block : Block) : Exec BlockProcessor ProcessorError B256 := do
  let hash ← Exec.lift ((hashHeader host block.header).mapErr .hashing)
  onPipeline (Pipeline.onProvider (Exec.mapErr .execution (InMemoryProvider.insertBlock host block)))
  pure hash

def updateHead (host : Host) (block : Block) (hash : B256) : Exec BlockProcessor ProcessorError ChainHead := do
  let processor ← Exec.get
  let totalDifficulty ←
    Exec.lift (add host.overflowChecks processor.chainHead.totalDifficulty (block.header.gasUsed.setWidth 128))
  Exec.modify fun processor => { processor with chainHead := ⟨block.header.number, hash, totalDifficulty⟩ }
  pure ⟨block.header.number, hash, totalDifficulty⟩

def countCommitted (output : ExecutionOutput) : Exec BlockProcessor ProcessorError Unit :=
  countMetrics fun metrics => metrics.commit output

/-- The part of `handle_new_block` before the drain. -/
def queueBlock (host : Host) (block : Block) (peerId : PeerId) : Exec BlockProcessor ProcessorError Unit := do
  let blockNumber := block.header.number
  let processor ← Exec.get
  let currentHeadNumber := processor.chainHead.number
  let expectedNextNumber ← Exec.lift (add host.overflowChecks currentHeadNumber 1)
  countMetrics fun metrics => { metrics with blocksReceived := metrics.blocksReceived + 1 }
  if blockNumber ≤ currentHeadNumber then do
    countRejectedValidation
    Exec.throw (.invalidBlockNumber blockNumber expectedNextNumber)
  else
    Exec.modify fun processor =>
      { processor with pendingMap := processor.pendingMap.insert blockNumber ⟨block, peerId⟩ }

end BlockProcessor

open BlockProcessor

/-- One step of `process_block`, and where it is then. -/
def ProcessPoint.piece (host : Host) : ProcessPoint → Exec BlockProcessor ProcessorError (Option ProcessPoint)
  | start block => do
    let checked ← checkSenders host block
    pure (some (.checked checked))
  | checked block => do
    let output ← executeChecked host block
    pure (some (.executed block.block output))
  | executed block output => do
    let hash ← insertExecuted host block
    pure (some (.inserted block output hash))
  | inserted block output hash => do
    let head ← updateHead host block hash
    pure (some (.headed head output))
  | headed head output => do
    writeToSharedHead head.number head.hash head.totalDifficulty
    pure (some (.shared output))
  | shared output => do
    countCommitted output
    pure none

/-- What is left of `process_block`. -/
def ProcessPoint.rest (host : Host) : ProcessPoint → Exec BlockProcessor ProcessorError Unit
  | start block => processBlock host block
  | checked block => do
    let result ← Exec.attempt (onPipeline (Pipeline.execute host block))
    match result with
    | .error error => do
      countRejectedExecution
      Exec.throw (.execution error)
    | .ok output => commitBlock host block.block output
  | executed block output => commitBlock host block output
  | inserted block output hash => do
    let head ← updateHead host block hash
    writeToSharedHead head.number head.hash head.totalDifficulty
    countCommitted output
  | headed head output => do
    writeToSharedHead head.number head.hash head.totalDifficulty
    countCommitted output
  | shared output => countCommitted output

/-- One step of `run` within a message; nothing comes back from a panic. -/
def ProcessorPoint.advance (host : Host) (processor : BlockProcessor) :
    ProcessorPoint → Option (ProcessorPoint × BlockProcessor)
  | handle block peerId =>
    match queueBlock host block peerId processor with
    | .ok (_, after) => some (.tryDrain false, after)
    -- the error is logged
    | .err (_, after) => some (.receive, after)
    | .panic => none
  | tryDrain last =>
    (nextNumber host.overflowChecks processor.chainHead.number).map fun next => (.drain last next, processor)
  | drain last next =>
    match processor.pendingMap.lookup next with
    | none => some (if last then (.ended, { processor with pendingMap := ∅ }) else (.receive, processor))
    | some pendingBlock =>
      some (.process last next (.start pendingBlock.block),
        { processor with pendingMap := processor.pendingMap.erase next })
  | process last next point =>
    match point.piece host processor with
    | .ok (some later, after) => some (.process last next later, after)
    | .ok (none, after) => some (.turn last next, after)
    -- a rejection is logged, and the drain goes on
    | .err (_, after) => some (.turn last next, after)
    | .panic => none
  | turn last next => (nextNumber host.overflowChecks next).map fun following => (.drain last following, processor)
  | receive | answer _ | ended => none

/-- The task has a step of its own to take. -/
def ProcessorPoint.busy : ProcessorPoint → Bool
  | receive | answer _ | ended => false
  | handle .. | tryDrain _ | drain .. | process .. | turn .. => true

def ProcessorPoint.alive : ProcessorPoint → Bool
  | receive | handle .. | answer _ | tryDrain _ | drain .. | process .. | turn .. => true
  | ended => false

/-- No message comes after the one in hand. -/
def ProcessorPoint.last : ProcessorPoint → Bool
  | tryDrain last | drain last _ | process last _ _ | turn last _ => last
  | receive | handle .. | answer _ => false
  | ended => true

section Rest

theorem insertExecuted_eq (host : Host) (block : Block) (processor : BlockProcessor) :
    insertExecuted host block processor = .ok (headerHash host block.header, { processor with pipeline :=
      { processor.pipeline with provider := processor.pipeline.provider.withBlock host block } }) := by
  rw [insertExecuted, hashHeader_eq, Outcome.mapErr_ok, Exec.bind_ok (Exec.lift_ok _ _),
    Exec.bind_ok (onPipeline_insertBlock host block processor)]
  rfl

theorem updateHead_eq (host : Host) (block : Block) (hash : B256) (processor : BlockProcessor) :
    updateHead host block hash processor =
      match add (ε := ProcessorError) host.overflowChecks processor.chainHead.totalDifficulty
        (block.header.gasUsed.setWidth 128) with
      | .ok totalDifficulty => .ok (⟨block.header.number, hash, totalDifficulty⟩,
          { processor with chainHead := ⟨block.header.number, hash, totalDifficulty⟩ })
      | .err error => .err (error, processor)
      | .panic => .panic := by
  rw [updateHead, Exec.get_bind, Exec.lift_bind]
  cases add (ε := ProcessorError) host.overflowChecks processor.chainHead.totalDifficulty
    (block.header.gasUsed.setWidth 128) <;> rfl

theorem ProcessPoint.rest_eq (host : Host) (point : ProcessPoint) (processor : BlockProcessor) :
    point.rest host processor =
      match point.piece host processor with
      | .ok (some later, after) => later.rest host after
      | .ok (none, after) => .ok ((), after)
      | .err failure => .err failure
      | .panic => .panic := by
  cases point with
  | start block =>
    change processBlock host block processor = _
    rw [processBlock, Exec.bind_run]
    simp only [piece, checkSenders, Exec.bind_run]
    cases checkBlock host block processor with
    | panic => rfl
    | err failure => rfl
    | ok result =>
      simp only [Exec.read, Exec.lift, buildBlockWithSenders]
      cases recoverSenders host result.2.chainId block.transactions <;> rfl
  | checked block =>
    simp only [rest, piece, executeChecked, Exec.bind_run]
    cases (Exec.attempt (onPipeline (Pipeline.execute host block)) : Exec BlockProcessor ProcessorError _)
      processor with
    | panic => rfl
    | err failure => rfl
    | ok result =>
      obtain ⟨result, after⟩ := result
      cases result <;> rfl
  | executed block output =>
    have inserted := insertExecuted_eq host block processor
    rw [rest, commitBlock, hashHeader_eq, Outcome.mapErr_ok, Exec.bind_ok (Exec.lift_ok _ _),
      Exec.bind_ok (onPipeline_insertBlock host block processor), piece, Exec.bind_ok inserted]
    change _ = (updateHead host block (headerHash host block.header) >>= _) _
    rw [Exec.get_bind, Exec.lift_bind, Exec.bind_run, updateHead_eq]
    cases add (ε := ProcessorError) host.overflowChecks processor.chainHead.totalDifficulty
      (block.header.gasUsed.setWidth 128) <;> rfl
  | inserted block output hash =>
    simp only [rest, piece, Exec.bind_run]
    cases updateHead host block hash processor <;> rfl
  | headed head output => rfl
  | shared output => rfl

end Rest

section Resume
variable {host : Host} {processor : BlockProcessor}

/-- What a drain leaves. The last one drops what is still pending. -/
def drained (host : Host) (last : Bool) (next : U64) (processor : BlockProcessor) : Option BlockProcessor :=
  (Exec.final (drainLoop host processor.pendingMap.keys.card next processor)).map fun after =>
    if last then { after with pendingMap := ∅ } else after

def drainedAfter (host : Host) (last : Bool) (number : U64) (processor : BlockProcessor) : Option BlockProcessor :=
  (nextNumber host.overflowChecks number).bind fun next => drained host last next processor

/-- What the message in hand leaves, from any point of its handling. -/
def ProcessorPoint.resume (host : Host) (processor : BlockProcessor) : ProcessorPoint → Option BlockProcessor
  | handle block peerId => Exec.final (handleNewBlock host block peerId processor)
  | tryDrain last => drainedAfter host last processor.chainHead.number processor
  | drain last next => drained host last next processor
  | process last next point =>
    (Exec.final (point.rest host processor)).bind fun after => drainedAfter host last next after
  | turn last next => drainedAfter host last next processor
  | receive | answer _ | ended => some processor

theorem handleNewBlock_eq (host : Host) (block : Block) (peerId : PeerId) (processor : BlockProcessor) :
    handleNewBlock host block peerId processor =
      match queueBlock host block peerId processor with
      | .ok (_, after) => BlockProcessor.tryDrain host after
      | .err failure => .err failure
      | .panic => .panic := by
  rw [handleNewBlock, queueBlock, Exec.get_bind, Exec.get_bind, lift_nextNumber_bind, lift_nextNumber_bind]
  cases nextNumber host.overflowChecks processor.chainHead.number with
  | none => rfl
  | some expected =>
    simp only [countMetrics, Exec.modify_bind]
    by_cases stale : block.header.number ≤ processor.chainHead.number
    · rw [if_pos stale, if_pos stale]
      rfl
    · rw [if_neg stale, if_neg stale]
      rfl

theorem final_tryDrain (host : Host) (processor : BlockProcessor) :
    Exec.final (BlockProcessor.tryDrain host processor) =
      drainedAfter host false processor.chainHead.number processor := by
  rw [BlockProcessor.tryDrain, Exec.get_bind, lift_nextNumber_bind, drainedAfter]
  cases nextNumber host.overflowChecks processor.chainHead.number with
  | none => rfl
  | some next => exact Option.map_id'.symm

theorem drained_of_found {next : U64} {entry : PendingBlock} (closed : processor.ledger.Closed) (last : Bool)
    (found : processor.pendingMap.lookup next = some entry) :
    drained host last next processor =
      (Exec.final (processBlock host entry.block
        { processor with pendingMap := processor.pendingMap.erase next })).bind fun after =>
          drainedAfter host last next after := by
  have fewer := HashMap.keys_card_erase found
  have unqueued : Ledger.Closed (BlockProcessor.ledger
    { processor with pendingMap := processor.pendingMap.erase next }) := closed
  have same : Exec.final ((Exec.attempt (processBlock host entry.block) : Exec BlockProcessor ProcessorError _)
      { processor with pendingMap := processor.pendingMap.erase next }) = _ := Exec.final_attempt _ _
  rw [drained, ← fewer, drainLoop, Exec.get_bind, found, ← same]
  simp only [Exec.modify_bind]
  rcases attempt_processBlock host entry.block unqueued with ⟨ledger, result, metrics, _, attempted⟩ | ⟨_, attempted⟩
  · rw [Exec.bind_ok attempted, attempted, lift_nextNumber_bind]
    change _ = drainedAfter host last next _
    rw [drainedAfter]
    cases nextNumber host.overflowChecks next with
    | none => rfl
    | some following =>
      dsimp only
      rw [Exec.final_bind_pure]
      rfl
  · rw [Exec.bind_panic attempted, attempted]
    rfl

/-- A step leaves the same to do, and a panic in it is a panic of the whole. -/
theorem ProcessorPoint.resume_eq {point : ProcessorPoint} (busy : point.busy = true)
    (closed : ∀ last next, point = .drain last next → processor.ledger.Closed) :
    point.resume host processor = (point.advance host processor).bind fun step => step.1.resume host step.2 := by
  cases point with
  | receive | answer | ended => cases busy
  | handle block peerId =>
    rw [resume, advance, handleNewBlock_eq]
    cases queueBlock host block peerId processor with
    | panic => rfl
    | err failure => rfl
    | ok result => exact final_tryDrain host result.2
  | tryDrain last =>
    rw [resume, drainedAfter, advance, Option.bind_map]
    rfl
  | drain last next =>
    rw [resume, advance]
    cases found : processor.pendingMap.lookup next with
    | none =>
      rw [drained, drainLoop_of_absent found]
      cases last <;> rfl
    | some entry => exact drained_of_found (closed last next rfl) last found
  | process last next point =>
    rw [resume, advance, point.rest_eq]
    cases point.piece host processor with
    | panic => rfl
    | err failure => rfl
    | ok result =>
      obtain ⟨later, after⟩ := result
      cases later <;> rfl
  | turn last next =>
    rw [resume, drainedAfter, advance, Option.bind_map]
    rfl

/-- A message is handled as `deliver` has it. -/
theorem deliver_eq_resume (host : Host) (processor : BlockProcessor) (block : Block) (peerId : PeerId) :
    (deliver host processor ⟨block, peerId⟩).map Prod.snd =
      ProcessorPoint.resume host processor (.handle block peerId) := by
  rw [deliver, ProcessorPoint.resume]
  cases handleNewBlock host block peerId processor <;> rfl

end Resume

end MiniEthNode
