import MiniEthNode.RlpCodec.Encoder

namespace MiniEthNode
open Rust Rlp

class RlpEncodable (α : Type) where
  toRlpItem : α → RlpItem

export RlpEncodable (toRlpItem)

/-- The integer encoders send the big-endian bytes from the first nonzero one on. -/
def strippedItem (bytes : Bytes) : RlpItem :=
  let firstNonzero := (bytes.findIdx? (· != 0)).getD bytes.length
  .bytes (bytes.drop firstNonzero)

instance : RlpEncodable U64 where
  toRlpItem value := strippedItem (toBeBytes 8 value.toNat)

instance : RlpEncodable U128 where
  toRlpItem value := strippedItem (toBeBytes 16 value.toNat)

instance : RlpEncodable Bytes where
  toRlpItem data := .bytes data

/-- The encoders of `Address`, `B256` and `Bloom`. -/
instance (size : Nat) : RlpEncodable (FixedBytes size) where
  toRlpItem value := .bytes value.bytes

instance : RlpEncodable AccessListItem where
  toRlpItem item := .list [toRlpItem item.address, .list (item.storageKeys.map toRlpItem)]

instance : RlpEncodable Header where
  toRlpItem header := .list [
    toRlpItem header.parentHash,
    toRlpItem header.beneficiary,
    toRlpItem header.stateRoot,
    toRlpItem header.transactionsRoot,
    toRlpItem header.gasLimit,
    toRlpItem header.gasUsed,
    toRlpItem header.timestamp,
    toRlpItem header.number]

instance : RlpEncodable Account where
  toRlpItem account := .list [toRlpItem account.balance, toRlpItem account.nonce, toRlpItem account.codeHash]

/-- The recipient of a transaction, which `Transaction::to_rlp_item` writes as an empty string if there is none. -/
def toItem : Option Address → RlpItem
  | some address => toRlpItem address
  | none => .bytes []

instance : RlpEncodable Transaction where
  toRlpItem
    | .legacy nonce gasPrice gasLimit toAddress value data => .list [
      toRlpItem (0 : U64), toRlpItem nonce, toRlpItem gasLimit, toItem toAddress, toRlpItem value, toRlpItem data,
      toRlpItem gasPrice]
    | .eip1559 nonce maxPriorityFeePerGas maxFeePerGas gasLimit toAddress value data accessList => .list [
      toRlpItem (2 : U64), toRlpItem nonce, toRlpItem gasLimit, toItem toAddress, toRlpItem value, toRlpItem data,
      toRlpItem maxFeePerGas, toRlpItem maxPriorityFeePerGas, .list (accessList.map toRlpItem)]
    | .eip4844 nonce maxPriorityFeePerGas maxFeePerGas maxFeePerBlobGas gasLimit toAddress value data accessList
        blobVersionedHashes => .list [
      toRlpItem (3 : U64), toRlpItem nonce, toRlpItem gasLimit, toItem toAddress, toRlpItem value, toRlpItem data,
      toRlpItem maxFeePerGas, toRlpItem maxPriorityFeePerGas, .list (accessList.map toRlpItem),
      toRlpItem maxFeePerBlobGas, .list (blobVersionedHashes.map toRlpItem)]

instance : RlpEncodable SignedTransaction where
  toRlpItem signedTx :=
    .list [toRlpItem signedTx.transaction, toRlpItem signedTx.v, toRlpItem signedTx.r, toRlpItem signedTx.s]

instance : RlpEncodable Block where
  toRlpItem block := .list [toRlpItem block.header, .list (block.transactions.map toRlpItem)]

theorem drop_findIdx?_getD (bytes : Bytes) :
    bytes.drop ((bytes.findIdx? (· != 0)).getD bytes.length) = bytes.dropWhile (· == 0) := by
  induction bytes with
  | nil => rfl
  | cons byte rest ih =>
    by_cases zero : byte = 0
    · subst zero
      cases found : rest.findIdx? (· != 0) with
      | none => simpa [List.findIdx?_cons, found] using ih
      | some i => simpa [List.findIdx?_cons, found] using ih
    · simp [List.findIdx?_cons, zero]

/-- Stripping leading zeros loses nothing of the number. -/
theorem strippedItem_toBeBytes_inj {count m n : Nat} (smallM : m < 256 ^ count) (smallN : n < 256 ^ count)
    (same : strippedItem (toBeBytes count m) = strippedItem (toBeBytes count n)) : m = n := by
  simp only [strippedItem, drop_findIdx?_getD, Item.bytes.injEq] at same
  have value := congrArg beValue same
  rwa [beValue_dropWhile_zero, beValue_dropWhile_zero, beValue_toBeBytes, beValue_toBeBytes,
    Nat.mod_eq_of_lt smallM, Nat.mod_eq_of_lt smallN] at value

theorem toRlpItem_u64_inj {a b : U64} (same : toRlpItem a = toRlpItem b) : a = b :=
  BitVec.toNat_inj.mp (strippedItem_toBeBytes_inj (a.isLt.trans_eq (by norm_num))
    (b.isLt.trans_eq (by norm_num)) same)

theorem toRlpItem_u128_inj {a b : U128} (same : toRlpItem a = toRlpItem b) : a = b :=
  BitVec.toNat_inj.mp (strippedItem_toBeBytes_inj (a.isLt.trans_eq (by norm_num))
    (b.isLt.trans_eq (by norm_num)) same)

theorem toRlpItem_fixedBytes_inj {size : Nat} {a b : FixedBytes size} (same : toRlpItem a = toRlpItem b) :
    a = b :=
  FixedBytes.ext (Item.bytes.inj same)

section Lengths

/-- A string of at most 32 bytes, which is what the integers and the hashes are sent as. -/
def ShortField (item : RlpItem) : Prop := ∃ data : Bytes, item = .bytes data ∧ data.length ≤ 32

theorem shortField_stripped {count : Nat} (value : Nat) (small : count ≤ 32) :
    ShortField (strippedItem (toBeBytes count value)) := by
  refine ⟨_, rfl, ?_⟩
  rw [List.length_drop, toBeBytes_length]
  omega

theorem shortField_u64 (value : U64) : ShortField (toRlpItem value) := shortField_stripped value.toNat (by decide)

theorem shortField_u128 (value : U128) : ShortField (toRlpItem value) := shortField_stripped value.toNat (by decide)

theorem shortField_fixedBytes {size : Nat} (value : FixedBytes size) (small : size ≤ 32) :
    ShortField (toRlpItem value) :=
  ⟨_, rfl, value.length_eq.trans_le small⟩

/-- A list of so many short fields. -/
def ShortFields (count : Nat) (item : RlpItem) : Prop :=
  ∃ items : List RlpItem, item = .list items ∧ items.length = count ∧ ∀ field ∈ items, ShortField field

theorem ShortFields.length_le {count : Nat} {item : RlpItem} (fields : ShortFields count item)
    (few : count ≤ 2 ^ 32) : (serialize item).length ≤ count * 41 + 9 := by
  obtain ⟨items, rfl, rfl, each⟩ := fields
  have payload : (serializeAll items).length ≤ items.length * 41 := by
    refine serializeAll_length_le fun item member => ?_
    obtain ⟨data, rfl, short⟩ := each item member
    exact (serialize_bytes_length_le data (by omega)).trans (by omega)
  exact (serialize_list_length_le (by omega)).trans (by omega)

theorem shortFields_header (header : Header) : ShortFields 8 (toRlpItem header) := by
  refine ⟨_, rfl, rfl, ?_⟩
  simp only [List.forall_mem_cons, List.not_mem_nil, false_implies, implies_true, and_true]
  exact ⟨shortField_fixedBytes _ (by decide), shortField_fixedBytes _ (by decide), shortField_fixedBytes _ (by decide),
    shortField_fixedBytes _ (by decide), shortField_u64 _, shortField_u64 _, shortField_u64 _, shortField_u64 _⟩

theorem shortFields_account (account : Account) : ShortFields 3 (toRlpItem account) := by
  refine ⟨_, rfl, rfl, ?_⟩
  simp only [List.forall_mem_cons, List.not_mem_nil, false_implies, implies_true, and_true]
  exact ⟨shortField_u128 _, shortField_u64 _, shortField_fixedBytes _ (by decide)⟩

end Lengths

end MiniEthNode
