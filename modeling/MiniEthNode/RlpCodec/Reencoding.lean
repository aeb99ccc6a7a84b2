import MiniEthNode.Format.Grammar
import MiniEthNode.RlpCodec.Decodable

namespace MiniEthNode
open Rust Rlp

/-- A type whose decoder takes no item that is shorter than the one of the value. -/
class RlpCompact (α : Type) [RlpEncodable α] [RlpDecodable α] : Prop where
  compact : ∀ {item : RlpItem} {a : α}, fromRlpItem item = .ok a → NoLonger (toRlpItem a) item

section Fields
variable {α β : Type} [RlpEncodable α] [RlpDecodable α] [RlpCompact α] {x : List RlpItem} {i : Nat} {b : β}

theorem fieldAt_covered {next : α → Outcome RlpError β} (read : (fieldAt x i >>= next) = .ok b) :
    ∃ a, CoveredAt x i (toRlpItem a) ∧ next a = .ok b := by
  obtain ⟨a, field, later⟩ := Outcome.bind_eq_ok.mp read
  obtain ⟨item, here, decoded⟩ := Outcome.bind_eq_ok.mp field
  exact ⟨a, ⟨item, index_eq_ok here, RlpCompact.compact decoded⟩, later⟩

theorem decodeAll_covered {items : List RlpItem} {values : List α} (read : decodeAll items = .ok values) :
    List.Forall₂ NoLonger (values.map toRlpItem) items := by
  induction items generalizing values with
  | nil =>
    cases read
    exact .nil
  | cons item rest ih =>
    obtain ⟨value, first, later⟩ := Outcome.bind_eq_ok.mp read
    obtain ⟨others, behind, done⟩ := Outcome.bind_eq_ok.mp later
    cases done
    exact .cons (RlpCompact.compact first) (ih behind)

theorem listAt_covered {next : List α → Outcome RlpError β} (read : (listAt x i >>= next) = .ok b) :
    ∃ values, CoveredAt x i (.list (values.map toRlpItem)) ∧ next values = .ok b := by
  obtain ⟨values, field, later⟩ := Outcome.bind_eq_ok.mp read
  obtain ⟨item, here, decoded⟩ := Outcome.bind_eq_ok.mp field
  cases item with
  | bytes data => cases decoded
  | list items => exact ⟨values, ⟨_, index_eq_ok here, noLonger_list (decodeAll_covered decoded)⟩, later⟩

omit [RlpEncodable α] [RlpDecodable α] [RlpCompact α] in
theorem fieldsOf_eq_ok {count : Nat} {item : RlpItem} {next : List RlpItem → Outcome RlpError β}
    (read : (fieldsOf count item >>= next) = .ok b) : ∃ x, item = .list x ∧ x.length = count ∧ next x = .ok b := by
  obtain ⟨x, fields, later⟩ := Outcome.bind_eq_ok.mp read
  cases item with
  | bytes data => cases fields
  | list items =>
    rw [fieldsOf] at fields
    split at fields
    · cases fields
    · rename_i length
      cases fields
      exact ⟨_, rfl, not_not.mp length, later⟩

end Fields

section Primitive

/-- An integer is written without the leading zeros that it may be read with. -/
theorem integerFromRlpItem_noLonger {size value : Nat} {item : RlpItem}
    (read : integerFromRlpItem size item = .ok value) :
    value < 256 ^ size ∧ NoLonger (strippedItem (toBeBytes size value)) item := by
  cases item with
  | list items => cases read
  | bytes x =>
    rw [integerFromRlpItem] at read
    split at read
    · cases read
    · rename_i fits
      rw [fromBeBytes_ok (Nat.not_lt.mp fits)] at read
      cases read
      have small : beValue x < 256 ^ size :=
        (beValue_lt x).trans_le (Nat.pow_le_pow_right (by decide) (Nat.not_lt.mp fits))
      refine ⟨small, ?_⟩
      rw [strippedItem_eq, dropWhile_zero, beValue_toBeBytes, Nat.mod_eq_of_lt small, ← dropWhile_zero]
      exact noLonger_of_suffix (List.dropWhile_suffix _)

instance : RlpCompact U64 where
  compact read := by
    obtain ⟨value, inside, done⟩ := Outcome.bind_eq_ok.mp read
    cases done
    obtain ⟨small, fits⟩ := integerFromRlpItem_noLonger inside
    change NoLonger (strippedItem (toBeBytes 8 (BitVec.ofNat 64 value).toNat)) _
    rwa [BitVec.toNat_ofNat, Nat.mod_eq_of_lt (small.trans_eq (by norm_num))]

instance : RlpCompact U128 where
  compact read := by
    obtain ⟨value, inside, done⟩ := Outcome.bind_eq_ok.mp read
    cases done
    obtain ⟨small, fits⟩ := integerFromRlpItem_noLonger inside
    change NoLonger (strippedItem (toBeBytes 16 (BitVec.ofNat 128 value).toNat)) _
    rwa [BitVec.toNat_ofNat, Nat.mod_eq_of_lt (small.trans_eq (by norm_num))]

instance : RlpCompact Bytes where
  compact {item a} read := by
    cases item with
    | list items => cases read
    | bytes x =>
      cases read
      exact Nat.le_refl _

instance (size : Nat) : RlpCompact (FixedBytes size) where
  compact {item a} read := by
    cases item with
    | list items => cases read
    | bytes x =>
      have same := FixedBytes.tryFrom_eq_ok (Outcome.mapErr_eq_ok.mp read)
      change NoLonger (.bytes a.bytes) _
      rw [same]
      exact Nat.le_refl _

theorem decodeTo_noLonger {item : RlpItem} {toAddress : Option Address} (read : decodeTo item = .ok toAddress) :
    NoLonger (toItem toAddress) item := by
  cases item with
  | list items => cases read
  | bytes b =>
    rw [decodeTo] at read
    split at read
    · rename_i empty
      cases read
      rw [List.isEmpty_iff.mp empty]
      exact Nat.le_refl _
    · obtain ⟨address, inside, done⟩ := Outcome.bind_eq_ok.mp read
      cases done
      exact RlpCompact.compact inside

theorem toAt_covered {β : Type} {x : List RlpItem} {i : Nat} {b : β} {next : Option Address → Outcome RlpError β}
    (read : (toAt x i >>= next) = .ok b) : ∃ toAddress, CoveredAt x i (toItem toAddress) ∧ next toAddress = .ok b := by
  obtain ⟨toAddress, field, later⟩ := Outcome.bind_eq_ok.mp read
  obtain ⟨item, here, decoded⟩ := Outcome.bind_eq_ok.mp field
  exact ⟨toAddress, ⟨item, index_eq_ok here, decodeTo_noLonger decoded⟩, later⟩

end Primitive

section Compound

instance : RlpCompact AccessListItem where
  compact read := by
    obtain ⟨x, rfl, length, read⟩ := fieldsOf_eq_ok read
    obtain ⟨_, address, read⟩ := fieldAt_covered read
    obtain ⟨_, storageKeys, read⟩ := listAt_covered read
    cases read
    exact CoveredFrom.noLonger ⟨address, storageKeys, length⟩

instance : RlpCompact Header where
  compact read := by
    obtain ⟨x, rfl, length, read⟩ := fieldsOf_eq_ok read
    obtain ⟨_, parentHash, read⟩ := fieldAt_covered read
    obtain ⟨_, beneficiary, read⟩ := fieldAt_covered read
    obtain ⟨_, stateRoot, read⟩ := fieldAt_covered read
    obtain ⟨_, transactionsRoot, read⟩ := fieldAt_covered read
    obtain ⟨_, gasLimit, read⟩ := fieldAt_covered read
    obtain ⟨_, gasUsed, read⟩ := fieldAt_covered read
    obtain ⟨_, timestamp, read⟩ := fieldAt_covered read
    obtain ⟨_, number, read⟩ := fieldAt_covered read
    cases read
    exact CoveredFrom.noLonger
      ⟨parentHash, beneficiary, stateRoot, transactionsRoot, gasLimit, gasUsed, timestamp, number, length⟩

theorem commonFields_covered {x : List RlpItem} {tx : Transaction}
    {next : U64 → U64 → Option Address → U128 → Bytes → Outcome RlpError Transaction}
    (read : (do
      let nonce ← fieldAt x 1
      let gasLimit ← fieldAt x 2
      let toAddress ← toAt x 3
      let value ← fieldAt x 4
      let data ← fieldAt x 5
      next nonce gasLimit toAddress value data) = .ok tx) :
    ∃ nonce gasLimit toAddress value data,
      next nonce gasLimit toAddress value data = .ok tx ∧ CoveredAt x 1 (toRlpItem nonce) ∧
        CoveredAt x 2 (toRlpItem gasLimit) ∧ CoveredAt x 3 (toItem toAddress) ∧ CoveredAt x 4 (toRlpItem value) ∧
        CoveredAt x 5 (toRlpItem data) := by
  obtain ⟨_, nonce, read⟩ := fieldAt_covered read
  obtain ⟨_, gasLimit, read⟩ := fieldAt_covered read
  obtain ⟨_, toAddress, read⟩ := toAt_covered read
  obtain ⟨_, value, read⟩ := fieldAt_covered read
  obtain ⟨_, data, read⟩ := fieldAt_covered read
  exact ⟨_, _, _, _, _, read, nonce, gasLimit, toAddress, value, data⟩

theorem decodeLegacy_noLonger {x : List RlpItem} {tx : Transaction} (tag : CoveredAt x 0 (toRlpItem (0 : U64)))
    (read : decodeLegacy x = .ok tx) : NoLonger (toRlpItem tx) (.list x) := by
  unfold decodeLegacy at read
  split at read
  · cases read
  · rename_i length
    obtain ⟨_, _, _, _, _, read, nonce, gasLimit, toAddress, value, data⟩ := commonFields_covered read
    obtain ⟨_, gasPrice, read⟩ := fieldAt_covered read
    cases read
    exact CoveredFrom.noLonger ⟨tag, nonce, gasLimit, toAddress, value, data, gasPrice, not_not.mp length⟩

theorem decodeEip1559_noLonger {x : List RlpItem} {tx : Transaction} (tag : CoveredAt x 0 (toRlpItem (2 : U64)))
    (read : decodeEip1559 x = .ok tx) : NoLonger (toRlpItem tx) (.list x) := by
  unfold decodeEip1559 at read
  split at read
  · cases read
  · rename_i length
    obtain ⟨_, _, _, _, _, read, nonce, gasLimit, toAddress, value, data⟩ := commonFields_covered read
    obtain ⟨_, maxFee, read⟩ := fieldAt_covered read
    obtain ⟨_, maxPriorityFee, read⟩ := fieldAt_covered read
    obtain ⟨_, accessList, read⟩ := listAt_covered read
    cases read
    exact CoveredFrom.noLonger
      ⟨tag, nonce, gasLimit, toAddress, value, data, maxFee, maxPriorityFee, accessList, not_not.mp length⟩

theorem decodeEip4844_noLonger {x : List RlpItem} {tx : Transaction} (tag : CoveredAt x 0 (toRlpItem (3 : U64)))
    (read : decodeEip4844 x = .ok tx) : NoLonger (toRlpItem tx) (.list x) := by
  unfold decodeEip4844 at read
  split at read
  · cases read
  · rename_i length
    obtain ⟨_, _, _, _, _, read, nonce, gasLimit, toAddress, value, data⟩ := commonFields_covered read
    obtain ⟨_, maxFee, read⟩ := fieldAt_covered read
    obtain ⟨_, maxPriorityFee, read⟩ := fieldAt_covered read
    obtain ⟨_, accessList, read⟩ := listAt_covered read
    obtain ⟨_, maxFeePerBlobGas, read⟩ := fieldAt_covered read
    obtain ⟨_, blobVersionedHashes, read⟩ := listAt_covered read
    cases read
    exact CoveredFrom.noLonger
      ⟨tag, nonce, gasLimit, toAddress, value, data, maxFee, maxPriorityFee, accessList, maxFeePerBlobGas,
        blobVersionedHashes, not_not.mp length⟩

instance : RlpCompact Transaction where
  compact {item a} read := by
    cases item with
    | bytes b => cases read
    | list x =>
      by_cases nonempty : x = []
      · subst nonempty
        cases read
      · rw [fromRlpItem_transaction nonempty] at read
        obtain ⟨tag, spelled, read⟩ := fieldAt_covered read
        -- the tag is a field of its own, which may have leading zeros too
        unfold decodeTagged at read
        split at read
        · subst tag
          exact decodeLegacy_noLonger spelled read
        · split at read
          · subst tag
            exact decodeEip1559_noLonger spelled read
          · split at read
            · subst tag
              exact decodeEip4844_noLonger spelled read
            · cases read

instance : RlpCompact SignedTransaction where
  compact read := by
    obtain ⟨x, rfl, length, read⟩ := fieldsOf_eq_ok read
    obtain ⟨_, transaction, read⟩ := fieldAt_covered read
    obtain ⟨_, v, read⟩ := fieldAt_covered read
    obtain ⟨_, r, read⟩ := fieldAt_covered read
    obtain ⟨_, s, read⟩ := fieldAt_covered read
    cases read
    exact CoveredFrom.noLonger ⟨transaction, v, r, s, length⟩

instance : RlpCompact Block where
  compact read := by
    obtain ⟨x, rfl, length, read⟩ := fieldsOf_eq_ok read
    obtain ⟨_, header, read⟩ := fieldAt_covered read
    obtain ⟨_, transactions, read⟩ := listAt_covered read
    cases read
    exact CoveredFrom.noLonger ⟨header, transactions, length⟩

end Compound

end MiniEthNode
