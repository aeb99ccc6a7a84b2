import MiniEthNode.Networking.Frames
import MiniEthNode.RlpCodec.Reencoding

namespace MiniEthNode
open Rust Rlp

instance : RlpCompact BlockAnnouncement where
  compact read := by
    obtain ⟨x, rfl, length, read⟩ := fieldsOf_eq_ok read
    obtain ⟨_, hash, read⟩ := fieldAt_covered read
    obtain ⟨_, number, read⟩ := fieldAt_covered read
    cases read
    exact CoveredFrom.noLonger ⟨hash, number, length⟩

theorem decodeFields_covered {tag : UInt8} {x : List RlpItem} {m : Message} (read : EthCodec.decodeFields tag x = .ok m) :
    ∃ fields, toRlpItem m = .list (tagItem tag :: fields) ∧ CoveredFrom x 0 fields := by
  unfold EthCodec.decodeFields at read
  split at read
  case h_14 => cases read
  case h_1 | h_2 | h_12 =>
    obtain ⟨rfl, rfl⟩ := EthCodec.bare_eq_ok_iff.mp read
    exact ⟨_, rfl, rfl⟩
  all_goals obtain ⟨length, read⟩ := counted_eq_ok_iff.mp read
  case h_3 | h_11 | h_13 =>
    obtain ⟨_, first, read⟩ := fieldAt_covered read
    obtain ⟨_, second, read⟩ := fieldAt_covered read
    obtain ⟨_, third, read⟩ := fieldAt_covered read
    cases read
    exact ⟨_, rfl, first, second, third, length⟩
  case h_4 | h_7 | h_8 =>
    obtain ⟨_, entries, read⟩ := listAt_covered read
    cases read
    exact ⟨_, rfl, entries, length⟩
  case h_5 | h_6 =>
    obtain ⟨_, first, read⟩ := fieldAt_covered read
    obtain ⟨_, second, read⟩ := fieldAt_covered read
    cases read
    exact ⟨_, rfl, first, second, length⟩
  case h_9 =>
    obtain ⟨item, here, read⟩ := Outcome.bind_eq_ok.mp read
    obtain ⟨reason, decoded, read⟩ := Outcome.bind_eq_ok.mp read
    cases read
    rw [reasonFromRlpItem_eq_ok decoded] at here
    exact ⟨_, rfl, ⟨_, index_eq_ok here, Nat.le_refl _⟩, length⟩
  case h_10 =>
    obtain ⟨_, address, read⟩ := fieldAt_covered read
    cases read
    exact ⟨_, rfl, address, length⟩

namespace EthCodec

/-- The payload that a message is sent with. -/
def payload (m : Message) : Bytes :=
  match toRlpItem m with
  | .list (_ :: fields) => serialize (.list fields)
  | _ => []

/-- The length of the frame that a message is sent in. -/
def frameSize (m : Message) : Nat := 1 + (payload m).length

section Sizes
variable {m : Message} {tag : UInt8} {fields : List RlpItem}

theorem payload_eq (spelled : toRlpItem m = .list (tagItem tag :: fields)) :
    payload m = serialize (.list fields) := by
  rw [payload, spelled]

theorem frameSize_eq (spelled : toRlpItem m = .list (tagItem tag :: fields)) :
    frameSize m = 1 + (serialize (.list fields)).length := by
  rw [frameSize, payload_eq spelled]

/-- The decoder has no limit but the width of the length. -/
theorem decode_framed_payload (spelled : toRlpItem m = .list (tagItem tag :: fields)) (small : frameSize m < 2 ^ 32) :
    decode (framed tag (payload m)) = .ok (some m, []) := by
  rw [frameSize_eq spelled, ← List.append_nil (serialize (.list fields))] at small
  have read := decode_framed_fields tag small
  rw [List.append_nil, decodeFields_of_spelled spelled] at read
  rw [payload_eq spelled]
  exact read

theorem encode_small (spelled : toRlpItem m = .list (tagItem tag :: fields)) (fits : frameSize m ≤ maxFrameSize)
    (dst : Bytes) : encode m dst = .ok ((), dst ++ framed tag (payload m)) := by
  have size := frameSize_eq spelled
  have bound : frameSize m < 2 ^ 64 := fits.trans_lt (by decide)
  rw [encode_run spelled, usizeAdd_ok (size ▸ bound), Exec.bind_ok (Exec.lift_ok _ _), ← size,
    if_neg (Nat.not_lt.mpr fits), size, payload_eq spelled]
  rfl

theorem encode_large (large : maxFrameSize < frameSize m) (bound : frameSize m < 2 ^ 64) (dst : Bytes) :
    encode m dst = .err (.frameTooLarge (frameSize m), dst) := by
  obtain ⟨tag, fields, spelled, -⟩ := toRlpItem_message m
  have size := frameSize_eq spelled
  rw [encode_run spelled, usizeAdd_ok (size ▸ bound), Exec.bind_ok (Exec.lift_ok _ _), ← size, if_pos large]
  rfl

end Sizes

theorem decode_eq_some {src left : Bytes} {m : Message} (accepted : decode src = .ok (some m, left)) :
    Complete src ∧ decodeFrame ((src.drop 4).take (frameLength src)) = .ok m := by
  rw [decode_run] at accepted
  split at accepted
  · rename_i complete
    obtain ⟨message, _, lifted, done⟩ := Exec.bind_eq_ok.mp accepted
    obtain ⟨read, rfl⟩ := Exec.lift_eq_ok.mp lifted
    cases done
    exact ⟨complete, read⟩
  · cases accepted

/-- The message of an accepted frame would be sent in a frame that is no longer. -/
theorem frameSize_le_of_decodeFrame {frame : Bytes} {m : Message} (read : decodeFrame frame = .ok m) :
    frameSize m ≤ frame.length := by
  cases frame with
  | nil => cases read
  | cons tag rest =>
    rw [decodeFrame, index_ok (by simp), Outcome.ok_bind, sliceFrom_ok (by simp), Outcome.ok_bind] at read
    obtain ⟨⟨item, trailing⟩, parsed, read⟩ := Outcome.bind_eq_ok.mp read
    obtain ⟨front, spells, same⟩ := decode_eq_ok_iff.mp (Outcome.mapErr_eq_ok.mp parsed)
    cases item with
    | bytes data => cases read
    | list x =>
      obtain ⟨fields, spelled, covered⟩ := decodeFields_covered (Outcome.mapErr_eq_ok.mp read)
      have needed : (serialize (.list fields)).length ≤ front.length := covered.noLonger.trans spells.length_le
      have whole : rest.length = front.length + trailing.length := by
        rw [← List.length_append, ← same]
        rfl
      rw [frameSize_eq spelled, List.length_cons]
      omega

theorem frameSize_le {src left : Bytes} {m : Message} (accepted : decode src = .ok (some m, left)) :
    frameSize m ≤ frameLength src := by
  obtain ⟨complete, read⟩ := decode_eq_some accepted
  refine (frameSize_le_of_decodeFrame read).trans ?_
  exact List.length_take_le _ _

/-- Every message that fits is written, and what is written is read back. -/
theorem encode_decode {m : Message} (fits : frameSize m ≤ maxFrameSize) (dst : Bytes) :
    ∃ frame, encode m dst = .ok ((), dst ++ frame) ∧ decode frame = .ok (some m, []) := by
  obtain ⟨tag, fields, spelled, -⟩ := toRlpItem_message m
  exact ⟨_, encode_small spelled fits dst, decode_framed_payload spelled (fits.trans_lt (by decide))⟩

theorem frameSize_le_of_encode {m : Message} {dst written : Bytes} (accepted : encode m dst = .ok ((), written)) :
    frameSize m ≤ maxFrameSize := by
  obtain ⟨tag, fields, spelled, -, fits, -⟩ := encode_eq_ok accepted
  rwa [frameSize_eq spelled]

/-- An accepted message can be forwarded exactly if it fits into a frame of the limit, which is the case if
it has come in such a frame. -/
theorem forwarded_iff {src left : Bytes} {m : Message} (accepted : decode src = .ok (some m, left)) :
    ((∀ dst, ∃ frame, encode m dst = .ok ((), dst ++ frame) ∧ decode frame = .ok (some m, [])) ↔
      frameSize m ≤ maxFrameSize) ∧ frameSize m ≤ frameLength src := by
  refine ⟨⟨fun forwarded => ?_, encode_decode⟩, frameSize_le accepted⟩
  obtain ⟨frame, written, -⟩ := forwarded []
  exact frameSize_le_of_encode written

/-- A list without transactions, whose length is announced in two bytes. It is sent on in a shorter frame. -/
theorem forwarded_iff_long_form :
    decode [0, 0, 0, 4, 3, 0xf8, 1, 0xc0] = .ok (some (.transactions []), []) ∧
      ∀ dst, ∃ frame, encode (.transactions []) dst = .ok ((), dst ++ frame) ∧
        decode frame = .ok (some (.transactions []), []) := by
  have accepted : decode [0, 0, 0, 4, 3, 0xf8, 1, 0xc0] = .ok (some (.transactions []), []) := by decide +kernel
  exact ⟨accepted, (forwarded_iff accepted).1.mpr (by decide +kernel)⟩

section Oversized

/-- One transaction, with the given data and zeros in all other fields. -/
def carrying (data : Bytes) : Message := .transactions [.legacy 0 0 0 none 0 data]

/-- Every other field of the transaction takes one byte. -/
theorem toRlpItem_carrying (data : Bytes) :
    ∃ fields, toRlpItem (carrying data) = .list (tagItem msgTransactions :: [.list [.list fields]]) ∧
      (serializeAll fields).length = 6 + (serialize (.bytes data)).length := by
  have narrow : (serialize (toRlpItem (0 : U64))).length = 1 := by decide +kernel
  have wide : (serialize (toRlpItem (0 : U128))).length = 1 := by decide +kernel
  have nobody : (serialize (toItem none)).length = 1 := by decide +kernel
  have plain : toRlpItem data = .bytes data := rfl
  refine ⟨_, rfl, ?_⟩
  simp only [serializeAll, List.length_append, List.length_nil, narrow, wide, nobody, plain]
  omega

/-- The frame is longer than the data, but not by much. -/
theorem frameSize_carrying {data : Bytes} (bound : data.length < 2 ^ 31) :
    data.length < frameSize (carrying data) ∧ frameSize (carrying data) < 2 ^ 32 := by
  obtain ⟨fields, spelled, inside⟩ := toRlpItem_carrying data
  have least := length_le_serialize_bytes data
  have most := serialize_bytes_length_le data (by omega)
  have above := length_le_serialize_list fields
  have below := serialize_list_length_le (inside.trans_lt (by omega))
  -- around the transaction are the list of transactions and the list of fields
  have transactions := serialize_singleton_bounds (.list fields) (by omega)
  have payload := serialize_singleton_bounds (.list [.list fields]) (by omega)
  rw [frameSize_eq spelled]
  omega

/-- A frame with more than ten MiB of data is accepted, and its message is not sent on. -/
theorem oversized_not_forwarded :
    decode (framed msgTransactions (payload (carrying (List.replicate maxFrameSize 0)))) =
        .ok (some (carrying (List.replicate maxFrameSize 0)), []) ∧
      ∀ dst, encode (carrying (List.replicate maxFrameSize 0)) dst =
        .err (.frameTooLarge (frameSize (carrying (List.replicate maxFrameSize 0))), dst) := by
  have length : (List.replicate maxFrameSize (0 : UInt8)).length = maxFrameSize := List.length_replicate
  generalize List.replicate maxFrameSize (0 : UInt8) = data at length
  have small : data.length < 2 ^ 31 := by
    rw [length]
    decide
  obtain ⟨above, below⟩ := frameSize_carrying small
  obtain ⟨fields, spelled, -⟩ := toRlpItem_carrying data
  exact ⟨decode_framed_payload spelled below, encode_large (length ▸ above) (by omega)⟩

end Oversized

end EthCodec

end MiniEthNode
