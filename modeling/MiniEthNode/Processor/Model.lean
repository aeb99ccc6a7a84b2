import MiniEthNode.Execution.Pipeline

namespace MiniEthNode
open Rust

structure PeerId where
  id : U64
  deriving DecidableEq

inductive ProcessorError where
  | hashing (error : RlpError)
  | execution (error : ExecutionError)
  | trie (error : TrieError)
  | signing (error : SigningError)
  | sharedHeadOperationFailed
  | parentNotFound (blockNumber : U64)
  | invalidBlockNumber (actual expected : U64)
  | validationFailed (reason : String)
  deriving DecidableEq

structure PendingBlock where
  block : Block
  peerId : PeerId
  deriving DecidableEq

/-- The counters are atomic and wrap around. -/
structure Metrics where
  blocksReceived : U64
  blocksCommitted : U64
  blocksRejectedValidation : U64
  blocksRejectedExecution : U64
  transactionsCommitted : U64
  totalGasCommitted : U64
  deriving DecidableEq

/-- The shared head is behind a lock that only the processor writes. -/
structure BlockProcessor where
  pendingMap : HashMap U64 PendingBlock
  chainId : U64
  chainHead : ChainHead
  pipeline : Pipeline ValueTransferExecutor StrictValidator
  accounts : HashMap Address Account
  sharedHead : ChainHead
  metrics : Metrics

namespace BlockProcessor

/-- The loop of `new` over the initial accounts, which also encodes each account and drops the result. -/
def setInitialAccounts : List (Address × Account) → Exec InMemoryProvider ProcessorError Unit
  | [] => pure ()
  | (address, account) :: rest => do
    Exec.modify (·.setAccount address account)
    let _ ← Exec.lift ((encode (toRlpItem account) []).mapErr .hashing)
    setInitialAccounts rest

def new (host : Host) (genesisBlock : Block) (initialAccount : HashMap Address Account) (chainId : U64)
    (sharedHead : ChainHead) : Outcome ProcessorError BlockProcessor :=
  let prepare : Exec InMemoryProvider ProcessorError Unit := do
    Exec.mapErr .execution (InMemoryProvider.insertBlock host genesisBlock)
    setInitialAccounts (host.iteration.entries initialAccount)
  match prepare InMemoryProvider.default with
  | .ok (_, provider) => .ok
    { pendingMap := ∅
      chainId := chainId
      chainHead := sharedHead
      pipeline := ⟨provider, ⟨⟩, ⟨100⟩⟩
      accounts := initialAccount
      sharedHead := sharedHead
      metrics := ⟨0, 0, 0, 0, 0, 0⟩ }
  | .err (error, _) => .err error
  | .panic => .panic

def countMetrics (update : Metrics → Metrics) : Exec BlockProcessor ProcessorError Unit :=
  Exec.modify fun processor => { processor with metrics := update processor.metrics }

def countRejectedValidation : Exec BlockProcessor ProcessorError Unit :=
  countMetrics fun metrics => { metrics with blocksRejectedValidation := metrics.blocksRejectedValidation + 1 }

def countRejectedExecution : Exec BlockProcessor ProcessorError Unit :=
  countMetrics fun metrics => { metrics with blocksRejectedExecution := metrics.blocksRejectedExecution + 1 }

/-- The loop of `build_block_with_senders`. -/
def recoverSenders (host : Host) (chainId : U64) : List SignedTransaction → Outcome ProcessorError (List Address)
  | [] => .ok []
  | tx :: rest => do
    let sender ← (recoverSender host tx chainId).mapErr .signing
    let senders ← recoverSenders host chainId rest
    .ok (sender :: senders)

def buildBlockWithSenders (host : Host) (processor : BlockProcessor) (block : Block) :
    Outcome ProcessorError BlockWithSenders := do
  let senders ← recoverSenders host processor.chainId block.transactions
  .ok ⟨block, senders⟩

def writeToSharedHead (number : U64) (hash : B256) (totalDifficulty : U128) :
    Exec BlockProcessor ProcessorError Unit :=
  Exec.modify fun processor => { processor with sharedHead := ⟨number, hash, totalDifficulty⟩ }

/-- The text of the error for a timestamp that does not increase. -/
def timestampReason (parent header : Header) : String :=
  let parentTimestamp := parent.timestamp.toNat
  let blockTimestamp := header.timestamp.toNat
  s!"Parent block timestamp {parentTimestamp} must be less than incoming block timestamp {blockTimestamp}"

/-- A call on the pipeline of the processor. -/
def onPipeline {ε α : Type} (x : Exec (Pipeline ValueTransferExecutor StrictValidator) ε α) :
    Exec BlockProcessor ε α :=
  Exec.focus (·.pipeline) (fun pipeline processor => { processor with pipeline := pipeline }) x

/-- The part of `process_block` before execution: the parent, the numbers and the timestamps. -/
def checkBlock (host : Host) (block : Block) : Exec BlockProcessor ProcessorError Unit := do
  let number := block.header.number
  let processor ← Exec.get
  match processor.pipeline.provider.getBlockByHash block.header.parentHash with
  | .panic => Exec.panic
  | .err _ => do
    countRejectedValidation
    Exec.throw (.parentNotFound number)
  | .ok parentBlock => do
    let expected ← Exec.lift (add host.overflowChecks parentBlock.header.number 1)
    if expected ≠ number then do
      countRejectedValidation
      Exec.throw (.invalidBlockNumber number expected)
    else if parentBlock.header.timestamp ≥ block.header.timestamp then do
      countRejectedValidation
      Exec.throw (.validationFailed (timestampReason parentBlock.header block.header))
    else do
      let expected ← Exec.lift (add host.overflowChecks processor.chainHead.number 1)
      if expected ≠ number then do
        countRejectedValidation
        Exec.throw (.invalidBlockNumber number expected)
      else pure ()

/-- The part of `process_block` after execution: the block is stored and becomes the head. -/
def commitBlock (host : Host) (block : Block) (output : ExecutionOutput) :
    Exec BlockProcessor ProcessorError Unit := do
  let number := block.header.number
  let hash ← Exec.lift ((hashHeader host block.header).mapErr .hashing)
  let gasUsed := block.header.gasUsed.setWidth 128
  onPipeline (Pipeline.onProvider (Exec.mapErr .execution (InMemoryProvider.insertBlock host block)))
  let processor ← Exec.get
  let totalDifficulty ← Exec.lift (add host.overflowChecks processor.chainHead.totalDifficulty gasUsed)
  Exec.modify fun processor => { processor with chainHead := ⟨number, hash, totalDifficulty⟩ }
  writeToSharedHead number hash totalDifficulty
  let txCount := BitVec.ofNat 64 output.receipts.length
  countMetrics fun metrics =>
    { metrics with
      blocksCommitted := metrics.blocksCommitted + 1
      transactionsCommitted := metrics.transactionsCommitted + txCount
      totalGasCommitted := metrics.totalGasCommitted + output.gasUsed }

def processBlock (host : Host) (block : Block) : Exec BlockProcessor ProcessorError Unit := do
  checkBlock host block
  let blockWithSenders ← Exec.read fun processor => buildBlockWithSenders host processor block
  let result ← Exec.attempt (onPipeline (Pipeline.execute host blockWithSenders))
  match result with
  | .error error => do
    countRejectedExecution
    Exec.throw (.execution error)
  | .ok output => commitBlock host block output

/-- The loop of `try_drain`, with the blocks it hands to `process_block`. Every round takes an
entry off the map, so the number of entries bounds the number of rounds. -/
def drainLoop (host : Host) : Nat → U64 → Exec BlockProcessor ProcessorError (List Block)
  | 0, _ => pure []
  | fuel + 1, nextBlockNumber => do
    let processor ← Exec.get
    match processor.pendingMap.lookup nextBlockNumber with
    | none => pure []
    | some pendingBlock => do
      Exec.modify fun processor => { processor with pendingMap := processor.pendingMap.erase nextBlockNumber }
      let _ : Except ProcessorError Unit ← Exec.attempt (processBlock host pendingBlock.block)
      let nextBlockNumber ← Exec.lift (add host.overflowChecks nextBlockNumber 1)
      let processed ← drainLoop host fuel nextBlockNumber
      pure (pendingBlock.block :: processed)

def tryDrain (host : Host) : Exec BlockProcessor ProcessorError (List Block) := do
  let processor ← Exec.get
  let nextBlockNumber ← Exec.lift (add host.overflowChecks processor.chainHead.number 1)
  drainLoop host processor.pendingMap.keys.card nextBlockNumber

/-- The value is the list of blocks handed to `process_block`. -/
def handleNewBlock (host : Host) (block : Block) (peerId : PeerId) :
    Exec BlockProcessor ProcessorError (List Block) := do
  let blockNumber := block.header.number
  let processor ← Exec.get
  let currentHeadNumber := processor.chainHead.number
  let expectedNextNumber ← Exec.lift (add host.overflowChecks currentHeadNumber 1)
  countMetrics fun metrics => { metrics with blocksReceived := metrics.blocksReceived + 1 }
  if blockNumber ≤ currentHeadNumber then do
    countRejectedValidation
    Exec.throw (.invalidBlockNumber blockNumber expectedNextNumber)
  else do
    Exec.modify fun processor =>
      { processor with pendingMap := processor.pendingMap.insert blockNumber ⟨block, peerId⟩ }
    tryDrain host

end BlockProcessor

/-- How the handling of one block ends. -/
inductive Delivery where
  | rejected (error : ProcessorError)
  | drained (processed : List Block)
  deriving DecidableEq

/-- One `NewBlock` message of `run`: an error is logged and the loop goes on, a panic ends the task. -/
def deliver (host : Host) (processor : BlockProcessor) (message : PendingBlock) :
    Option (Delivery × BlockProcessor) :=
  match processor.handleNewBlock host message.block message.peerId with
  | .ok (processed, after) => some (.drained processed, after)
  | .err (error, after) => some (.rejected error, after)
  | .panic => none

/-- A sequence of `NewBlock` messages with what became of each. -/
def deliverAll (host : Host) : BlockProcessor → List PendingBlock → Option (List Delivery × BlockProcessor)
  | processor, [] => some ([], processor)
  | processor, message :: rest => do
    let (delivery, between) ← deliver host processor message
    let (deliveries, after) ← deliverAll host between rest
    some (delivery :: deliveries, after)

end MiniEthNode
