import MiniEthNode.Format.Rlp
import MiniEthNode.Types.Transaction

namespace MiniEthNode
open Rust Rlp

abbrev RlpItem : Type := Rlp.Item

inductive RlpError where
  | inputTooShort (expected actual : Nat)
  | invalidLength (length : Nat)
  | trailingBytes (count : Nat)
  | unexpectedType (byte : UInt8)
  | overflow
  | invalidString
  | transaction (error : TransactionError)
  deriving DecidableEq

/-- The loop of `encode_length`, least significant byte first. Every round
shifts a byte out, so the value itself bounds the number of rounds. -/
def encodeLengthLoop : Nat → Nat → Bytes → Bytes
  | 0, _, bytes => bytes
  | fuel + 1, val, bytes =>
    if val ≤ 0xff then bytes ++ [UInt8.ofNat (val &&& 0xff)]
    else encodeLengthLoop fuel (val >>> 8) (bytes ++ [UInt8.ofNat (val &&& 0xff)])

def encodeLength (value : Nat) : Bytes :=
  (encodeLengthLoop (value + 1) value []).reverse

def encodedLengthLen (value : Nat) : Nat :=
  let bits := 64 - leadingZeros 64 value
  divCeil bits 8

def lengthPrefixLen (payloadLen : Nat) : Nat :=
  if payloadLen ≤ 55 then 1 else 1 + encodedLengthLen payloadLen

def listPrefixLen (payloadLen : Nat) : Nat := lengthPrefixLen payloadLen

mutual
/-- `encoded_len` has no error to return, but its sums can overflow. -/
def encodedLen : RlpItem → Outcome Empty Nat
  | .bytes data =>
    if data.length = 1 ∧ data.headD 0 < 0x80 then .ok 1
    else usizeAdd (lengthPrefixLen data.length) data.length
  | .list items => do
    let payloadLen ← encodedLens items 0
    usizeAdd (listPrefixLen payloadLen) payloadLen

/-- The sum of `encoded_len` over the items of a list. -/
def encodedLens : List RlpItem → Nat → Outcome Empty Nat
  | [], sum => .ok sum
  | item :: rest, sum => do
    let len ← encodedLen item
    let sum ← usizeAdd sum len
    encodedLens rest sum
end

def addRlpListPrefix (buffer : Bytes) (encodedItemsLen : Nat) : Bytes :=
  if encodedItemsLen ≤ 55 then
    buffer ++ [UInt8.ofNat (0xc0 + encodedItemsLen)]
  else
    let lengthBytes := encodeLength encodedItemsLen
    buffer ++ [UInt8.ofNat (0xf7 + lengthBytes.length)] ++ lengthBytes

/-- The arm of `encode` for a byte string. -/
def encodeBytes (data : Bytes) (buffer : Bytes) : Bytes :=
  if data.length = 1 ∧ data.headD 0 < 0x80 then
    buffer ++ data
  else if data.length ≤ 55 then
    buffer ++ [UInt8.ofNat (0x80 + data.length)] ++ data
  else
    let lengthBytes := encodeLength data.length
    buffer ++ [UInt8.ofNat (0xb7 + lengthBytes.length)] ++ lengthBytes ++ data

mutual
/-- The buffer for the items of a list is allocated with the sum of their `encoded_len` as its
capacity, which has no influence on what is written to it. -/
def encode : RlpItem → Bytes → Outcome RlpError Bytes
  | .bytes data, buffer => .ok (encodeBytes data buffer)
  | .list items, buffer => do
    let encodedItems ← encodeItems items []
    .ok (addRlpListPrefix buffer encodedItems.length ++ encodedItems)

/-- The loop of `encode` over the items of a list. -/
def encodeItems : List RlpItem → Bytes → Outcome RlpError Bytes
  | [], encodedItems => .ok encodedItems
  | item :: rest, encodedItems => do
    let encodedItems ← encode item encodedItems
    encodeItems rest encodedItems
end

theorem encodeLengthLoop_eq {fuel val : Nat} (enough : val < fuel) (positive : 0 < val) (bytes : Bytes) :
    encodeLengthLoop fuel val bytes = bytes ++ (Nat.digits 256 val).map UInt8.ofNat := by
  induction fuel generalizing val bytes with
  | zero => omega
  | succ fuel ih =>
    have low : val &&& 0xff = val % 256 := Nat.and_two_pow_sub_one_eq_mod val 8
    have high : val >>> 8 = val / 256 := Nat.shiftRight_eq_div_pow val 8
    simp only [encodeLengthLoop, low, high]
    rw [Nat.digits_def' (by decide) positive]
    split
    · rename_i small
      rw [Nat.div_eq_of_lt (by omega), Nat.digits_zero]
      rfl
    · rename_i large
      rw [ih (by omega) (by omega)]
      simp

theorem encodeLength_eq {value : Nat} (positive : 0 < value) : encodeLength value = bigEndian value := by
  rw [encodeLength, encodeLengthLoop_eq (Nat.lt_succ_self _) positive, List.nil_append, bigEndian]

theorem addRlpListPrefix_eq (buffer : Bytes) (length : Nat) :
    addRlpListPrefix buffer length = buffer ++ frame 192 length := by
  unfold addRlpListPrefix frame
  split
  · rfl
  · rename_i long
    rw [encodeLength_eq (by omega)]
    simp

theorem encodeBytes_eq (data buffer : Bytes) :
    encodeBytes data buffer = buffer ++ serialize (.bytes data) := by
  unfold encodeBytes
  split
  · rename_i single
    obtain ⟨byte, rfl⟩ := List.length_eq_one_iff.mp single.1
    have low : byte < 128 := single.2
    simp [serialize, low]
  · rename_i other
    have announced : serialize (.bytes data) = frame 128 data.length ++ data := by
      rcases serialize_bytes_cases data with ⟨byte, rfl, low, _⟩ | spelled
      · exact (other ⟨rfl, low⟩).elim
      · exact spelled
    rw [announced]
    unfold frame
    split
    · simp
    · rename_i long
      rw [encodeLength_eq (by omega)]
      simp

mutual
/-- The encoder never fails, and appends to its buffer the encoding of the item. -/
theorem encode_eq : ∀ (item : RlpItem) (buffer : Bytes), encode item buffer = .ok (buffer ++ serialize item)
  | .bytes data, buffer => by rw [encode, encodeBytes_eq]
  | .list items, buffer => by
    rw [encode, encodeItems_eq items []]
    simp [addRlpListPrefix_eq, serialize]

theorem encodeItems_eq : ∀ (items : List RlpItem) (buffer : Bytes),
    encodeItems items buffer = .ok (buffer ++ serializeAll items)
  | [], buffer => by simp [encodeItems, serializeAll]
  | item :: rest, buffer => by
    rw [encodeItems, encode_eq item buffer, Outcome.ok_bind, encodeItems_eq rest]
    simp [serializeAll]
end

section Lengths

/-- Counting bits and rounding up gives the number of bytes. -/
theorem encodedLengthLen_eq {value : Nat} (positive : 0 < value) (bound : value < 2 ^ 64) :
    encodedLengthLen value = (bigEndian value).length := by
  obtain ⟨bits, total, lower, upper⟩ := leadingZeros_bounds positive bound
  have count : encodedLengthLen value = bits / 8 + 1 := by
    simp only [encodedLengthLen, divCeil, show 64 - leadingZeros 64 value = bits + 1 by omega]
    split <;> omega
  have atMost : (bigEndian value).length ≤ bits / 8 + 1 := by
    refine bigEndian_length_le (upper.trans_le ?_)
    rw [show 256 = 2 ^ 8 by rfl, ← Nat.pow_mul]
    exact Nat.pow_le_pow_right (by decide) (by omega)
  have atLeast : bits / 8 < (bigEndian value).length := by
    have below := beValue_lt (bigEndian value)
    rw [beValue_bigEndian] at below
    refine (Nat.pow_lt_pow_iff_right (show 1 < 256 by decide)).mp (lt_of_le_of_lt ?_ (lower.trans_lt below))
    rw [show 256 = 2 ^ 8 by rfl, ← Nat.pow_mul]
    exact Nat.pow_le_pow_right (by decide) (by omega)
  omega

theorem lengthPrefixLen_eq (short : Nat) {length : Nat} (bound : length < 2 ^ 64) :
    lengthPrefixLen length = (frame short length).length := by
  unfold lengthPrefixLen frame
  split
  · rfl
  · rename_i long
    rw [encodedLengthLen_eq (by omega) bound, List.length_cons, Nat.add_comm]

mutual
theorem encodedLen_eq : ∀ item : RlpItem, (serialize item).length < 2 ^ 64 →
    encodedLen item = .ok (serialize item).length
  | .bytes data, bound => by
    rw [encodedLen]
    rcases serialize_bytes_cases data with ⟨byte, rfl, low, spelled⟩ | spelled
    · rw [spelled, if_pos ⟨rfl, low⟩, List.length_singleton]
    · split
      · rename_i single
        obtain ⟨byte, rfl⟩ := List.length_eq_one_iff.mp single.1
        have low : byte < 128 := single.2
        simp [serialize, low]
      · rw [spelled, List.length_append] at bound
        rw [lengthPrefixLen_eq 128 (by omega), usizeAdd_ok bound, spelled, List.length_append]
  | .list items, bound => by
    rw [serialize, List.length_append] at bound
    rw [encodedLen, encodedLens_eq items 0 (by omega), Outcome.ok_bind, Nat.zero_add, listPrefixLen,
      lengthPrefixLen_eq 192 (by omega), usizeAdd_ok bound, serialize, List.length_append]

theorem encodedLens_eq : ∀ (items : List RlpItem) (sum : Nat), sum + (serializeAll items).length < 2 ^ 64 →
    encodedLens items sum = .ok (sum + (serializeAll items).length)
  | [], sum, _ => rfl
  | item :: rest, sum, bound => by
    rw [serializeAll, List.length_append] at bound
    rw [encodedLens, encodedLen_eq item (by omega), Outcome.ok_bind, usizeAdd_ok (by omega), Outcome.ok_bind,
      encodedLens_eq rest _ (by omega), serializeAll, List.length_append, Nat.add_assoc]
end

/-- The encoder appends to whatever the buffer holds, and exactly as many bytes as `encoded_len` tells. -/
theorem encode_appends_encodedLen (item : RlpItem) (buffer : Bytes) :
    ∃ appended, encode item buffer = .ok (buffer ++ appended) ∧
      ((buffer ++ appended).length < 2 ^ 64 → encodedLen item = .ok appended.length) := by
  refine ⟨serialize item, encode_eq item buffer, fun bound => encodedLen_eq item ?_⟩
  rw [List.length_append] at bound
  omega

/-- A list with a string of 56 bytes, appended to two bytes. -/
theorem encode_appends_encodedLen_nested :
    let item : RlpItem := .list [.bytes [99, 97, 116], .bytes (List.replicate 56 0), .list [.bytes [100, 111, 103]]]
    ∃ appended, encode item [1, 2] = .ok ([1, 2] ++ appended) ∧ encodedLen item = .ok appended.length ∧
      appended.length = 69 := by
  intro item
  obtain ⟨appended, encoded, counted⟩ := encode_appends_encodedLen item [1, 2]
  have length : appended.length = 69 := by
    have spelled : encode item [1, 2] = .ok ([1, 2] ++ serialize item) := encode_eq item [1, 2]
    rw [encoded, Outcome.ok.injEq] at spelled
    rw [List.append_cancel_left spelled]
    rfl
  exact ⟨appended, encoded, counted (by simp [length]), length⟩

end Lengths

end MiniEthNode
