import MiniEthNode.Execution.Provider

namespace MiniEthNode
open Rust

/-- The orders in which the hash maps of a provider happen to yield their keys during one call. -/
structure Orders where
  blocks : Iteration BlockNumber
  headers : Iteration B256
  accounts : Iteration Address

/-- The methods take `&self`, but a provider may write behind a `RefCell` while it answers. -/
class BlockProvider (T : Type) where
  getBlockByNumber : Host → Orders → BlockNumber → Exec T ExecutionError Block
  getBlockByHash : Host → Orders → B256 → Exec T ExecutionError Block

class HeaderProvider (T : Type) where
  getHeaderByNumber : Host → Orders → BlockNumber → Exec T ExecutionError Header
  getHeaderByHash : Host → Orders → B256 → Exec T ExecutionError Header

class StateProvider (T : Type) where
  getAccount : Host → Orders → Address → Exec T ExecutionError Account
  getBalance : Host → Orders → Address → Exec T ExecutionError U128 := fun host orders address => do
    let accountInfo ← getAccount host orders address
    pure accountInfo.balance
  getNonce : Host → Orders → Address → Exec T ExecutionError U64 := fun host orders address => do
    let accountInfo ← getAccount host orders address
    pure accountInfo.nonce
  getStorage : Host → Orders → Address → B256 → Exec T ExecutionError B256

class TransactionProvider (T : Type) where
  getTransaction : Host → Orders → B256 → Exec T ExecutionError SignedTransaction
  getBlockTransactions : Host → Orders → BlockNumber → Exec T ExecutionError (List SignedTransaction)

class ReceiptProvider (T : Type) where
  getReceipt : Host → Orders → B256 → Exec T ExecutionError Receipt

namespace InMemoryProvider

instance : BlockProvider InMemoryProvider where
  getBlockByNumber _ _ number := Exec.read fun provider => provider.getBlockByNumber number
  getBlockByHash _ _ hash := Exec.read fun provider => provider.getBlockByHash hash

instance : HeaderProvider InMemoryProvider where
  getHeaderByNumber _ _ number := Exec.read fun provider => provider.getHeaderByNumber number
  getHeaderByHash _ _ hash := Exec.read fun provider => provider.getHeaderByHash hash

instance : StateProvider InMemoryProvider where
  getAccount _ _ address := Exec.read fun provider => provider.getAccount address
  getStorage _ _ address slot := Exec.read fun provider => provider.getStorage address slot

instance : TransactionProvider InMemoryProvider where
  getTransaction _ _ hash := Exec.read fun provider => provider.getTransaction hash
  getBlockTransactions _ _ blockNumber := Exec.read fun provider => provider.getBlockTransactions blockNumber

instance : ReceiptProvider InMemoryProvider where
  getReceipt _ _ transactionHash := Exec.read fun provider => provider.getReceipt transactionHash

end InMemoryProvider

/-- A call of one method of `FullProvider`. -/
inductive Query where
  | blockByNumber (number : BlockNumber)
  | blockByHash (hash : B256)
  | headerByNumber (number : BlockNumber)
  | headerByHash (hash : B256)
  | account (address : Address)
  | balance (address : Address)
  | nonce (address : Address)
  | storage (address : Address) (slot : B256)
  | transaction (hash : B256)
  | blockTransactions (blockNumber : BlockNumber)
  | receipt (transactionHash : B256)
  deriving DecidableEq

inductive Answer where
  | block (block : Block)
  | header (header : Header)
  | account (account : Account)
  | balance (balance : U128)
  | nonce (nonce : U64)
  | storage (value : B256)
  | transaction (transaction : SignedTransaction)
  | transactions (transactions : List SignedTransaction)
  | receipt (receipt : Receipt)
  deriving DecidableEq

section FullProvider
variable {T : Type} [BlockProvider T] [HeaderProvider T] [StateProvider T] [TransactionProvider T]
  [ReceiptProvider T]

def ask (host : Host) (orders : Orders) : Query → Exec T ExecutionError Answer
  | .blockByNumber number => do return .block (← BlockProvider.getBlockByNumber host orders number)
  | .blockByHash hash => do return .block (← BlockProvider.getBlockByHash host orders hash)
  | .headerByNumber number => do return .header (← HeaderProvider.getHeaderByNumber host orders number)
  | .headerByHash hash => do return .header (← HeaderProvider.getHeaderByHash host orders hash)
  | .account address => do return .account (← StateProvider.getAccount host orders address)
  | .balance address => do return .balance (← StateProvider.getBalance host orders address)
  | .nonce address => do return .nonce (← StateProvider.getNonce host orders address)
  | .storage address slot => do return .storage (← StateProvider.getStorage host orders address slot)
  | .transaction hash => do return .transaction (← TransactionProvider.getTransaction host orders hash)
  | .blockTransactions blockNumber => do
    return .transactions (← TransactionProvider.getBlockTransactions host orders blockNumber)
  | .receipt transactionHash => do return .receipt (← ReceiptProvider.getReceipt host orders transactionHash)

/-- Queries one after the other, each with the orders its own call meets. An error is an answer. -/
def askAll (host : Host) : List (Orders × Query) → Exec T Empty (List (Except ExecutionError Answer))
  | [] => pure []
  | (orders, query) :: rest => do
    let answer ← Exec.attempt (ask host orders query)
    let answers ← askAll host rest
    pure (answer :: answers)

end FullProvider

namespace InMemoryProvider

theorem ask_readOnly (host : Host) (orders : Orders) (query : Query) :
    Exec.ReadOnly (ask host orders query : Exec InMemoryProvider ExecutionError Answer) := by
  have found {α : Type} {view : InMemoryProvider → Option α} {e : ExecutionError} :
      Exec.ReadOnly (Exec.read fun provider => Outcome.okOr (view provider) e) :=
    .read fun _ => Outcome.okOr_ne_panic
  have byHash {α : Type} {hash : B256} {next : InMemoryProvider → BlockNumber → Outcome ExecutionError α}
      (returns : ∀ provider number, next provider number ≠ .panic) :
      Exec.ReadOnly (Exec.read fun provider : InMemoryProvider => do
        next provider (← Outcome.okOr (provider.blocksByHash.lookup hash) (.headerNotFound hash))) :=
    .read fun provider => Outcome.bind_ne_panic Outcome.okOr_ne_panic fun number _ => returns provider number
  cases query with
  | blockByNumber number => exact found.bind fun _ => .pure _
  | blockByHash hash => exact (byHash fun _ _ => Outcome.okOr_ne_panic).bind fun _ => .pure _
  | headerByNumber number => exact found.bind fun _ => .pure _
  | headerByHash hash => exact (byHash fun _ _ => Outcome.okOr_ne_panic).bind fun _ => .pure _
  | account address => exact found.bind fun _ => .pure _
  | balance address => exact (found.bind fun _ => .pure _).bind fun _ => .pure _
  | nonce address => exact (found.bind fun _ => .pure _).bind fun _ => .pure _
  | storage address slot => exact Exec.ReadOnly.bind (.read fun _ => nofun) fun _ => .pure _
  | transaction hash => exact found.bind fun _ => .pure _
  | blockTransactions blockNumber => exact found.bind fun _ => .pure _
  | receipt transactionHash => exact found.bind fun _ => .pure _

/-- No query of the in-memory provider writes to it or panics. -/
theorem askAll_readOnly (host : Host) (calls : List (Orders × Query)) :
    Exec.ReadOnly (askAll host calls : Exec InMemoryProvider Empty _) := by
  induction calls with
  | nil => exact .pure []
  | cons call rest ih =>
    obtain ⟨orders, query⟩ := call
    exact (ask_readOnly host orders query).attempt.bind fun answer => ih.bind fun answers => .pure (answer :: answers)

end InMemoryProvider

end MiniEthNode
