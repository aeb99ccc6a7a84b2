import MiniEthNode.RlpCodec.Decodable
import MiniEthNode.RlpCodec.Decoder

namespace MiniEthNode
open Rust Rlp

/-- The two halves meet at the item, which has one encoding. -/
theorem decode_then_fromRlpItem {α : Type} [RlpEncodable α] [RlpDecodable α] [RlpLawful α] (a : α)
    (bound : (serialize (toRlpItem a)).length < 2 ^ 64) :
    ∃ item, decode (serialize (toRlpItem a)) = .ok (item, []) ∧ fromRlpItem item = .ok a := by
  have read := decode_serialize bound []
  rw [List.append_nil] at read
  exact ⟨toRlpItem a, read, RlpLawful.roundTrip a⟩

/-- A block comes back from its bytes, with nothing left over. The bytes that are hashed for a header
come from one header only. -/
theorem block_roundTrip :
    (∀ block : Block, ∃ bytes, encode (toRlpItem block) [] = .ok bytes ∧
      (bytes.length < 2 ^ 64 → ∃ item, decode bytes = .ok (item, []) ∧ fromRlpItem item = .ok block)) ∧
    ∀ (header header' : Header) (bytes : Bytes), encode (toRlpItem header) [] = .ok bytes →
      encode (toRlpItem header') [] = .ok bytes → header = header' := by
  constructor
  · intro block
    refine ⟨serialize (toRlpItem block), by rw [encode_eq, List.nil_append], ?_⟩
    exact decode_then_fromRlpItem block
  · intro header header' bytes first second
    rw [encode_eq, List.nil_append, Outcome.ok.injEq] at first second
    have short := (shortFields_header header).length_le (by decide)
    have short' := (shortFields_header header').length_le (by decide)
    exact toRlpItem_inj (serialize_inj (by omega) (by omega) (first.trans second.symm))

/-- A block with a transaction of each type, one of them without a recipient. -/
def mixedBlock : Block where
  header := ⟨.ofNat 1, .ofNat 2, .ofNat 3, .ofNat 4, 30000000, 63000, 1700000000, 7⟩
  transactions := [
    ⟨.legacy 0 60 21000 none 0 [0x60, 0], 37, .ofNat 5, .ofNat 6⟩,
    ⟨.eip1559 1 2 90 21000 (some (.ofNat 0x22)) 256 [] [⟨.ofNat 0x33, [.ofNat 0, .ofNat 1]⟩], 0, .ofNat 5,
      .ofNat 6⟩,
    ⟨.eip4844 2 2 90 3 21000 (some (.ofNat 0x22)) 0 [5] [] [.ofNat 0xbb], 1, .ofNat 5, .ofNat 6⟩]

theorem block_roundTrip_mixed : ∃ bytes item, encode (toRlpItem mixedBlock) [] = .ok bytes ∧
    decode bytes = .ok (item, []) ∧ fromRlpItem item = .ok mixedBlock := by
  obtain ⟨bytes, encoded, back⟩ := block_roundTrip.1 mixedBlock
  have length : bytes.length < 2 ^ 64 := by
    have spelled := encode_eq (toRlpItem mixedBlock) []
    rw [encoded, List.nil_append, Outcome.ok.injEq] at spelled
    rw [spelled]
    decide +kernel
  obtain ⟨item, read, same⟩ := back length
  exact ⟨bytes, item, encoded, read, same⟩

section Account

theorem fromRlpItem_u64_long {data : Bytes} (long : 8 < data.length) :
    (fromRlpItem (.bytes data) : Outcome RlpError U64) = .err (.invalidLength data.length) := by
  change (integerFromRlpItem 8 (.bytes data) >>= _) = _
  rw [integerFromRlpItem, if_pos long, Outcome.err_bind]

theorem fromRlpItem_u64_short {data : Bytes} (short : data.length ≤ 8) :
    (fromRlpItem (.bytes data) : Outcome RlpError U64) = .ok (BitVec.ofNat 64 (beValue data)) := by
  change (integerFromRlpItem 8 (.bytes data) >>= _) = _
  rw [integerFromRlpItem, if_neg (Nat.not_lt.mpr short), fromBeBytes_ok short, Outcome.ok_bind]

theorem fromRlpItem_fixedBytes_wrong {size : Nat} {data : Bytes} (wrong : data.length ≠ size) :
    (fromRlpItem (.bytes data) : Outcome RlpError (FixedBytes size)) = .err (.invalidLength data.length) := by
  change (FixedBytes.tryFrom data).mapErr _ = _
  rw [FixedBytes.tryFrom_wrong wrong, Outcome.mapErr_err]

/-- The nonce and the code hash are read from the bytes of the balance: more than 8 of them do not
make a nonce, and 16 at most do not make a hash. -/
theorem fromRlpItem_account (account : Account) {data : Bytes} (sent : toRlpItem account.balance = .bytes data) :
    (fromRlpItem (toRlpItem account) : Outcome RlpError Account) = .err (.invalidLength data.length) := by
  have atMost : data.length ≤ 16 := by
    have width := (List.dropWhile_sublist (· == 0) (l := toBeBytes 16 account.balance.toNat)).length_le
    rw [toBeBytes_length] at width
    have spelled := Item.bytes.inj ((strippedItem_eq (toBeBytes 16 account.balance.toNat)).symm.trans sent)
    rw [← spelled]
    exact width
  obtain ⟨x, shape, count, first⟩ : ∃ x : List RlpItem, toRlpItem account = .list x ∧ x.length = 3 ∧
      x[0]? = some (toRlpItem account.balance) := ⟨_, rfl, rfl, rfl⟩
  have balance : fieldAt x 0 = .ok account.balance := fieldAt_ok first
  rw [sent] at first
  have codeHash : (fieldAt x 0 : Outcome RlpError B256) = .err (.invalidLength data.length) :=
    (fieldAt_of_item first).trans (fromRlpItem_fixedBytes_wrong (by omega))
  have fields : fieldsOf 3 (.list x) = .ok x := if_neg (not_not.mpr count)
  rw [shape]
  refine Outcome.bind_eq_err.mpr (.inr ⟨x, fields, Outcome.bind_eq_err.mpr (.inr ⟨account.balance, balance, ?_⟩)⟩)
  by_cases long : 8 < data.length
  · have nonce : (fieldAt x 0 : Outcome RlpError U64) = .err (.invalidLength data.length) :=
      (fieldAt_of_item first).trans (fromRlpItem_u64_long long)
    exact Outcome.bind_eq_err.mpr (.inl nonce)
  · have nonce : (fieldAt x 0 : Outcome RlpError U64) = .ok (BitVec.ofNat 64 (beValue data)) :=
      (fieldAt_of_item first).trans (fromRlpItem_u64_short (Nat.not_lt.mp long))
    exact Outcome.bind_eq_err.mpr (.inr ⟨_, nonce, Outcome.bind_eq_err.mpr (.inl codeHash)⟩)

/-- No account comes back from its bytes, whatever its fields are. -/
theorem account_not_read_back (account : Account) :
    ∃ bytes item, encode (toRlpItem account) [] = .ok bytes ∧ decode bytes = .ok (item, []) ∧
      (fromRlpItem item : Outcome RlpError Account) =
        .err (.invalidLength ((toBeBytes 16 account.balance.toNat).dropWhile (· == 0)).length) := by
  have short := (shortFields_account account).length_le (by decide)
  have read := decode_serialize (x := toRlpItem account) (by omega) []
  rw [List.append_nil] at read
  refine ⟨serialize (toRlpItem account), toRlpItem account, by rw [encode_eq, List.nil_append], read, ?_⟩
  exact fromRlpItem_account account (strippedItem_eq _)

/-- The default account, of which not even the balance has a byte. -/
theorem account_default_lost :
    ∃ bytes item, encode (toRlpItem Account.default) [] = .ok bytes ∧ decode bytes = .ok (item, []) ∧
      (fromRlpItem item : Outcome RlpError Account) = .err (.invalidLength 0) ∧
      (fromRlpItem item : Outcome RlpError Account) ≠ .ok Account.default := by
  have lost : (fromRlpItem (toRlpItem Account.default) : Outcome RlpError Account) = .err (.invalidLength 0) := rfl
  refine ⟨_, toRlpItem Account.default, rfl, rfl, lost, ?_⟩
  rw [lost]
  simp

end Account

end MiniEthNode
