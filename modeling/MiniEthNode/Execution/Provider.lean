import MiniEthNode.RlpCodec.Signing
import MiniEthNode.Rust.Relation
import MiniEthNode.Trie.Node

namespace MiniEthNode
open Rust

abbrev BlockNumber : Type := U64

inductive ExecutionError where
  | blockNotFound (number : BlockNumber)
  | headerNotFound (hash : B256)
  | transactionNotFound (hash : B256)
  | receiptNotFound (hash : B256)
  | accountNotFound (address : Address)
  | invalidParentHash (expected actual : B256)
  | gasLimitExceeded (limit used : U64)
  | insufficientBalance (address : Address) (available required : U128)
  | invalidNonce (address : Address) (expected actual : U64)
  | tooManyTransactions (limit actual : Nat)
  | invalidBlockNumber (expected actual : BlockNumber)
  | overflow
  | underflow
  | journalAlreadySet
  | transaction (error : TransactionError)
  | signing (error : SigningError)
  | rootCompute (error : TrieError)
  | rlp (error : RlpError)
  deriving DecidableEq

structure Log where
  address : Address
  topics : List B256
  data : Bytes
  deriving DecidableEq

structure Receipt where
  transactionHash : B256
  transactionIndex : U64
  blockHash : B256
  blockNumber : BlockNumber
  fromAddress : Address
  toAddress : Option Address
  contractAddress : Option Address
  cumulativeGasUsed : U64
  effectiveGasPrice : U128
  gasUsed : U64
  status : Bool
  logs : List Log
  logsBloom : Bloom
  deriving DecidableEq

/-- `StateJournal`: what each account written since the journal was opened held before. -/
abbrev StateJournal : Type := HashMap Address (Option Account)

structure InMemoryProvider where
  blocks : HashMap BlockNumber Block
  blocksByHash : HashMap B256 BlockNumber
  transactions : HashMap B256 (SignedTransaction × BlockNumber)
  receipts : HashMap B256 Receipt
  state : HashMap Address Account
  storage : HashMap (Address × B256) B256
  journal : Option StateJournal

namespace InMemoryProvider

def default : InMemoryProvider := ⟨∅, ∅, ∅, ∅, ∅, ∅, none⟩

/-- The loop of `insert_block` over the transactions. -/
def indexTransactions (host : Host) (blockNumber : BlockNumber) :
    List SignedTransaction → Exec InMemoryProvider ExecutionError Unit
  | [] => pure ()
  | signedTx :: rest => do
    let hash ← Exec.lift ((signedTransactionHash host signedTx).mapErr .signing)
    Exec.modify fun p => { p with transactions := p.transactions.insert hash (signedTx, blockNumber) }
    indexTransactions host blockNumber rest

def insertBlock (host : Host) (block : Block) : Exec InMemoryProvider ExecutionError Unit := do
  let blockHash ← Exec.lift ((hashHeader host block.header).mapErr .rlp)
  let blockNumber := block.header.number
  Exec.modify fun p => { p with blocksByHash := p.blocksByHash.insert blockHash blockNumber }
  indexTransactions host blockNumber block.transactions
  Exec.modify fun p => { p with blocks := p.blocks.insert blockNumber block }

def insertTransaction (provider : InMemoryProvider) (hash : B256) (transaction : SignedTransaction)
    (blockNumber : BlockNumber) : InMemoryProvider :=
  { provider with transactions := provider.transactions.insert hash (transaction, blockNumber) }

def insertReceipt (provider : InMemoryProvider) (receipt : Receipt) : InMemoryProvider :=
  { provider with receipts := provider.receipts.insert receipt.transactionHash receipt }

def setAccount (provider : InMemoryProvider) (address : Address) (info : Account) : InMemoryProvider :=
  { provider with
    journal := provider.journal.map fun accounts =>
      if (accounts.lookup address).isSome then accounts
      else accounts.insert address (provider.state.lookup address)
    state := provider.state.insert address info }

/-- Storage is written without a look at the journal. -/
def setStorage (provider : InMemoryProvider) (address : Address) (slot value : B256) : InMemoryProvider :=
  { provider with storage := provider.storage.insert (address, slot) value }

def beginJournal : Exec InMemoryProvider ExecutionError Unit := fun provider =>
  if provider.journal.isSome then .err (.journalAlreadySet, provider)
  else .ok ((), { provider with journal := some ∅ })

def commitJournal (provider : InMemoryProvider) : InMemoryProvider := { provider with journal := none }

/-- One round of the loop of `rollback_journal`. -/
def restoreAccount (state : HashMap Address Account) (entry : Address × Option Account) : HashMap Address Account :=
  match entry.2 with
  | none => state.erase entry.1
  | some account => state.insert entry.1 account

def rollbackJournal (host : Host) (provider : InMemoryProvider) : InMemoryProvider :=
  match provider.journal with
  | none => { provider with journal := none }
  | some accounts =>
    { provider with
      state := (host.iteration.entries accounts).foldl restoreAccount provider.state
      journal := none }

def getBlockByNumber (provider : InMemoryProvider) (number : BlockNumber) : Outcome ExecutionError Block :=
  Outcome.okOr (provider.blocks.lookup number) (.blockNotFound number)

def getBlockByHash (provider : InMemoryProvider) (hash : B256) : Outcome ExecutionError Block := do
  let number ← Outcome.okOr (provider.blocksByHash.lookup hash) (.headerNotFound hash)
  provider.getBlockByNumber number

def getHeaderByNumber (provider : InMemoryProvider) (number : BlockNumber) : Outcome ExecutionError Header :=
  Outcome.okOr ((provider.blocks.lookup number).map (·.header)) (.blockNotFound number)

def getHeaderByHash (provider : InMemoryProvider) (hash : B256) : Outcome ExecutionError Header := do
  let number ← Outcome.okOr (provider.blocksByHash.lookup hash) (.headerNotFound hash)
  provider.getHeaderByNumber number

def getAccount (provider : InMemoryProvider) (address : Address) : Outcome ExecutionError Account :=
  Outcome.okOr (provider.state.lookup address) (.accountNotFound address)

/-- `get_balance`, which `StateProvider` defines by `get_account`. -/
def getBalance (provider : InMemoryProvider) (address : Address) : Outcome ExecutionError U128 := do
  let accountInfo ← provider.getAccount address
  .ok accountInfo.balance

/-- `get_nonce`, likewise. -/
def getNonce (provider : InMemoryProvider) (address : Address) : Outcome ExecutionError U64 := do
  let accountInfo ← provider.getAccount address
  .ok accountInfo.nonce

def getStorage (provider : InMemoryProvider) (address : Address) (slot : B256) : Outcome ExecutionError B256 :=
  .ok ((provider.storage.lookup (address, slot)).getD FixedBytes.zero)

def getTransaction (provider : InMemoryProvider) (hash : B256) : Outcome ExecutionError SignedTransaction :=
  Outcome.okOr ((provider.transactions.lookup hash).map Prod.fst) (.transactionNotFound hash)

def getBlockTransactions (provider : InMemoryProvider) (blockNumber : BlockNumber) :
    Outcome ExecutionError (List SignedTransaction) :=
  Outcome.okOr ((provider.blocks.lookup blockNumber).map (·.transactions)) (.blockNotFound blockNumber)

def getReceipt (provider : InMemoryProvider) (transactionHash : B256) : Outcome ExecutionError Receipt :=
  Outcome.okOr (provider.receipts.lookup transactionHash) (.receiptNotFound transactionHash)

section Blocks

/-- The index entries of the transactions of a block. -/
def indexEntries (host : Host) (blockNumber : BlockNumber) (transactions : List SignedTransaction) :
    List (B256 × (SignedTransaction × BlockNumber)) :=
  transactions.map fun signedTx => (transactionHash host signedTx, (signedTx, blockNumber))

/-- A provider with one more block. -/
def withBlock (host : Host) (block : Block) (provider : InMemoryProvider) : InMemoryProvider :=
  { provider with
    blocks := provider.blocks.insert block.header.number block
    blocksByHash := provider.blocksByHash.insert (headerHash host block.header) block.header.number
    transactions := HashMap.insertAll provider.transactions
      (indexEntries host block.header.number block.transactions) }

theorem indexTransactions_eq (host : Host) (blockNumber : BlockNumber) (transactions : List SignedTransaction)
    (provider : InMemoryProvider) :
    indexTransactions host blockNumber transactions provider =
      .ok ((), { provider with
        transactions := HashMap.insertAll provider.transactions (indexEntries host blockNumber transactions) }) := by
  induction transactions generalizing provider with
  | nil => rfl
  | cons signedTx rest ih =>
    rw [indexTransactions, signedTransactionHash_eq, Outcome.mapErr_ok, Exec.bind_ok (Exec.lift_ok _ _),
      Exec.modify_bind, ih]
    rfl

/-- Storing a block cannot fail: headers and transactions always have a hash. -/
theorem insertBlock_eq (host : Host) (block : Block) (provider : InMemoryProvider) :
    insertBlock host block provider = .ok ((), provider.withBlock host block) := by
  rw [insertBlock, hashHeader_eq, Outcome.mapErr_ok, Exec.bind_ok (Exec.lift_ok _ _), Exec.modify_bind,
    Exec.bind_ok (indexTransactions_eq ..)]
  rfl

end Blocks

section Journal

/-- The account map `base` can be rebuilt: the journal entry of an account tells what the
account was, and an account without an entry is as it was. -/
def Journaled (base : HashMap Address Account) (provider : InMemoryProvider) : Prop :=
  ∃ accounts, provider.journal = some accounts ∧
    ∀ address, (accounts.lookup address).getD (provider.state.lookup address) = base.lookup address

theorem journaled_begin (provider : InMemoryProvider) :
    Journaled provider.state { provider with journal := some ∅ } :=
  ⟨∅, rfl, fun _ => rfl⟩

/-- The first write to an account records what it held, and later ones record nothing. -/
theorem Journaled.setAccount {base : HashMap Address Account} {provider : InMemoryProvider}
    (journaled : Journaled base provider) (address : Address) (info : Account) :
    Journaled base (provider.setAccount address info) := by
  obtain ⟨accounts, opened, recorded⟩ := journaled
  refine ⟨if (accounts.lookup address).isSome then accounts
    else accounts.insert address (provider.state.lookup address), ?_, fun other => ?_⟩
  · rw [InMemoryProvider.setAccount, opened]
    rfl
  · rw [← recorded other]
    by_cases same : other = address
    · subst same
      cases present : accounts.lookup other <;> simp [InMemoryProvider.setAccount, present]
    · split <;> simp [InMemoryProvider.setAccount, same]

theorem Journaled.setStorage {base : HashMap Address Account} {provider : InMemoryProvider}
    (journaled : Journaled base provider) (address : Address) (slot value : B256) :
    Journaled base (provider.setStorage address slot value) :=
  journaled

theorem lookup_restoreAccount (state : HashMap Address Account) (entry : Address × Option Account)
    (address : Address) :
    (restoreAccount state entry).lookup address = if address = entry.1 then entry.2 else state.lookup address := by
  obtain ⟨key, held⟩ := entry
  cases held <;> simp [restoreAccount]

theorem lookup_restore_of_notMem {entries : List (Address × Option Account)} {address : Address}
    (absent : address ∉ entries.map Prod.fst) (state : HashMap Address Account) :
    (entries.foldl restoreAccount state).lookup address = state.lookup address := by
  induction entries generalizing state with
  | nil => rfl
  | cons entry rest ih =>
    rw [List.map_cons, List.mem_cons, not_or] at absent
    rw [List.foldl_cons, ih absent.2, lookup_restoreAccount, if_neg absent.1]

theorem lookup_restore_of_mem {entries : List (Address × Option Account)} {address : Address}
    {held : Option Account} (distinct : (entries.map Prod.fst).Nodup) (member : (address, held) ∈ entries)
    (state : HashMap Address Account) : (entries.foldl restoreAccount state).lookup address = held := by
  induction entries generalizing state with
  | nil => simp at member
  | cons entry rest ih =>
    rw [List.map_cons, List.nodup_cons] at distinct
    rw [List.foldl_cons]
    rcases List.mem_cons.mp member with same | later
    · subst same
      rw [lookup_restore_of_notMem distinct.1, lookup_restoreAccount, if_pos rfl]
    · exact ih distinct.2 later _

/-- Rolling back rebuilds the account map and closes the journal; nothing else is touched. -/
theorem rollbackJournal_eq (host : Host) {base : HashMap Address Account} {provider : InMemoryProvider}
    (journaled : Journaled base provider) :
    rollbackJournal host provider = { provider with state := base, journal := none } := by
  obtain ⟨accounts, opened, recorded⟩ := journaled
  have rebuilt : (host.iteration.entries accounts).foldl restoreAccount provider.state = base := by
    refine Finmap.ext_lookup fun address => ?_
    rw [← recorded address]
    cases present : accounts.lookup address with
    | some held =>
      exact lookup_restore_of_mem (host.iteration.nodup accounts)
        ((host.iteration.mem_iff accounts address held).mpr present) _
    | none =>
      refine lookup_restore_of_notMem (fun member => ?_) _
      obtain ⟨⟨other, held⟩, inside, rfl⟩ := List.mem_map.mp member
      rw [(host.iteration.mem_iff accounts other held).mp inside] at present
      exact Option.some_ne_none held present
  rw [rollbackJournal, opened]
  simp only [rebuilt]

end Journal

end InMemoryProvider

end MiniEthNode
