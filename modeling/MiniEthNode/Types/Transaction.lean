import MiniEthNode.Types.Primitive

namespace MiniEthNode
open Rust

structure AccessListItem where
  address : Address
  storageKeys : List B256
  deriving DecidableEq

inductive Transaction where
  | legacy (nonce : U64) (gasPrice : U128) (gasLimit : U64) (toAddress : Option Address) (value : U128)
      (data : Bytes)
  | eip1559 (nonce : U64) (maxPriorityFeePerGas maxFeePerGas : U128) (gasLimit : U64)
      (toAddress : Option Address) (value : U128) (data : Bytes) (accessList : List AccessListItem)
  | eip4844 (nonce : U64) (maxPriorityFeePerGas maxFeePerGas maxFeePerBlobGas : U128) (gasLimit : U64)
      (toAddress : Option Address) (value : U128) (data : Bytes) (accessList : List AccessListItem)
      (blobVersionedHashes : List B256)
  deriving DecidableEq

inductive TransactionError where
  | overflow
  | insufficientMaxFee (baseFee maxFee : U128)
  deriving DecidableEq

namespace Transaction

/-- The fields that the source binds with one pattern for all three types. -/
def nonce : Transaction → U64
  | legacy nonce .. | eip1559 nonce .. | eip4844 nonce .. => nonce

def gasLimit : Transaction → U64
  | legacy _ _ gasLimit .. | eip1559 _ _ _ gasLimit .. | eip4844 _ _ _ _ gasLimit .. => gasLimit

/-- The field `to`, which is a reserved word here. -/
def toAddress : Transaction → Option Address
  | legacy _ _ _ toAddress .. | eip1559 _ _ _ _ toAddress .. | eip4844 _ _ _ _ _ toAddress .. => toAddress

def value : Transaction → U128
  | legacy _ _ _ _ value .. | eip1559 _ _ _ _ _ value .. | eip4844 _ _ _ _ _ _ value .. => value

def txType : Transaction → Outcome TransactionError UInt8
  | legacy .. => .ok 0
  | eip1559 .. => .ok 2
  | eip4844 .. => .ok 3

/-- The arm of `effective_gas_price` shared by the two fee-market types. -/
def marketGasPrice (baseFee maxFeePerGas maxPriorityFeePerGas : U128) : Outcome TransactionError U128 := do
  if baseFee > maxFeePerGas then
    .err (.insufficientMaxFee baseFee maxFeePerGas)
  else
    let addition ← Outcome.okOr (checkedAdd baseFee maxPriorityFeePerGas) .overflow
    .ok (if maxFeePerGas ≤ addition then maxFeePerGas else addition)

def effectiveGasPrice (tx : Transaction) (baseFee : U128) : Outcome TransactionError U128 :=
  match tx with
  | legacy _ gasPrice .. => .ok gasPrice
  | eip1559 _ maxPriorityFeePerGas maxFeePerGas .. | eip4844 _ maxPriorityFeePerGas maxFeePerGas .. =>
    marketGasPrice baseFee maxFeePerGas maxPriorityFeePerGas

/-- The checked product and sum that each arm of `max_cost` takes over its price. -/
def costAt (price : U128) (gasLimit : U64) (value : U128) : Outcome TransactionError U128 := do
  let multiplication ← Outcome.okOr (checkedMul price (gasLimit.setWidth 128)) .overflow
  Outcome.okOr (checkedAdd multiplication value) .overflow

def maxCost : Transaction → Outcome TransactionError U128
  | legacy _ gasPrice gasLimit _ value _ => costAt gasPrice gasLimit value
  | eip1559 _ _ maxFeePerGas gasLimit _ value .. => costAt maxFeePerGas gasLimit value
  | eip4844 _ _ maxFeePerGas _ gasLimit _ value .. => costAt maxFeePerGas gasLimit value

end Transaction

structure SignedTransaction where
  transaction : Transaction
  v : U64
  r : B256
  s : B256
  deriving DecidableEq

structure Header where
  parentHash : B256
  beneficiary : Address
  stateRoot : B256
  transactionsRoot : B256
  gasLimit : U64
  gasUsed : U64
  timestamp : U64
  number : U64
  deriving DecidableEq

structure Block where
  header : Header
  transactions : List SignedTransaction
  deriving DecidableEq

structure Account where
  balance : U128
  nonce : U64
  codeHash : B256
  deriving DecidableEq

/-- `Account::default`: an empty account carries the hash of the empty code. -/
def Account.default : Account where
  balance := 0
  nonce := 0
  codeHash := ⟨[0xc5, 0xd2, 0x46, 0x01, 0x86, 0xf7, 0x23, 0x3c, 0x92, 0x7e, 0x7d, 0xb2, 0xdc, 0xc7,
    0x03, 0xc0, 0xe5, 0x00, 0xb6, 0x53, 0xca, 0x82, 0x27, 0x3b, 0x7b, 0xfa, 0xd8, 0x04,
    0x5d, 0x85, 0xa4, 0x70], rfl⟩

structure ChainHead where
  number : U64
  hash : B256
  totalDifficulty : U128
  deriving DecidableEq

end MiniEthNode
