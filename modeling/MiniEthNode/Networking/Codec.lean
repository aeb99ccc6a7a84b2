import MiniEthNode.Format.Stream
import MiniEthNode.Networking.Message
import MiniEthNode.RlpCodec.Decoder

namespace MiniEthNode
open Rust Rlp

inductive NetworkError where
  | io
  | encode (error : RlpError)
  | decode (error : RlpError)
  | unknownMessageType (tag : UInt8)
  | frameTooLarge (length : Nat)
  | peerDisconnected
  deriving DecidableEq

def maxFrameSize : Nat := 10 * 1024 * 1024

namespace EthCodec

/-- `encode` appends the frame of a message to the buffer. -/
def encode (item : Message) : Exec Bytes NetworkError Unit :=
  match toRlpItem item with
  | .bytes _ => Exec.throw (.encode (.unexpectedType 0x80))
  | .list x => do
    let tag : U64 ← Exec.lift ((fieldAt x 0).mapErr .decode)
    let fields ← Exec.lift (sliceFrom x 1)
    let payload ← Exec.lift ((MiniEthNode.encode (.list fields) []).mapErr .encode)
    let frameLength ← Exec.lift (usizeAdd 1 payload.length)
    if frameLength > maxFrameSize then
      Exec.throw (.frameTooLarge frameLength)
    else
      Exec.modify (· ++ (toBeBytes 4 frameLength ++ UInt8.ofNat tag.toNat :: payload))

/-- `src.advance(count)`. -/
def advance (count : Nat) : Exec Bytes NetworkError Unit := do
  let src ← Exec.get
  let left ← Exec.lift (sliceFrom src count)
  Exec.modify fun _ => left

/-- `src.split_to(count)`. -/
def splitTo (count : Nat) : Exec Bytes NetworkError Bytes := do
  let src ← Exec.get
  let front ← Exec.lift (sliceTo src count)
  let left ← Exec.lift (sliceFrom src count)
  Exec.modify fun _ => left
  pure front

/-- The `match` on the tag of `EthCodec::decode`. All its errors are wrapped in `NetworkError::Decode`. -/
def decodeFields (tag : UInt8) (fields : List RlpItem) : Outcome RlpError Message :=
  match tag with
  | msgPing => if !fields.isEmpty then .err (.invalidLength fields.length) else .ok .ping
  | msgPong => if !fields.isEmpty then .err (.invalidLength fields.length) else .ok .pong
  | msgStatus => counted 3 fields do
    let chainId ← fieldAt fields 0
    let headHash ← fieldAt fields 1
    let totalDifficulty ← fieldAt fields 2
    .ok (.status chainId headHash totalDifficulty)
  | msgTransactions => counted 1 fields do
    let txs ← listAt fields 0
    .ok (.transactions txs)
  | msgGetBlockHeaders => counted 2 fields do
    let startHash ← fieldAt fields 0
    let count ← fieldAt fields 1
    .ok (.getBlockHeaders startHash count)
  | msgNewBlock => counted 2 fields do
    let block ← fieldAt fields 0
    let td ← fieldAt fields 1
    .ok (.newBlock block td)
  | msgNewBlockHashes => counted 1 fields do
    let blocks ← listAt fields 0
    .ok (.newBlockHashes blocks)
  | msgBlockHeaders => counted 1 fields do
    let headers ← listAt fields 0
    .ok (.blockHeaders headers)
  | msgDisconnect => counted 1 fields do
    let item ← index fields 0
    let reason ← reasonFromRlpItem item
    .ok (.disconnect reason)
  | msgGetAccountState => counted 1 fields do
    let address ← fieldAt fields 0
    .ok (.getAccountState address)
  | msgAccountState => counted 3 fields do
    let address ← fieldAt fields 0
    let nonce ← fieldAt fields 1
    let balance ← fieldAt fields 2
    .ok (.accountState address nonce balance)
  | msgGetChainHead => if !fields.isEmpty then .err (.invalidLength fields.length) else .ok .getChainHead
  | msgChainHead => counted 3 fields do
    let number ← fieldAt fields 0
    let hash ← fieldAt fields 1
    let totalDifficulty ← fieldAt fields 2
    .ok (.chainHead number hash totalDifficulty)
  | _ => .err (.unexpectedType tag)

/-- What `decode` does with a frame that it has taken off the buffer. Bytes of the payload behind
the first item are ignored. -/
def decodeFrame (frame : Bytes) : Outcome NetworkError Message := do
  let tag ← index frame 0
  let payload ← sliceFrom frame 1
  let (decodedPayload, _) ← (MiniEthNode.decode payload).mapErr .decode
  match decodedPayload with
  | .bytes _ => .err (.decode (.unexpectedType 0x80))
  | .list fields => (decodeFields tag fields).mapErr .decode

/-- `decode` takes a frame off the buffer once it is complete. -/
def decode : Exec Bytes NetworkError (Option Message) := do
  let src ← Exec.get
  if src.length < 4 then
    pure none
  else
    let lenBytes ← Exec.lift (sliceTo src 4)
    let frameLength := beValue lenBytes
    let whole ← Exec.lift (usizeAdd 4 frameLength)
    if src.length < whole then
      pure none
    else
      advance 4
      let frame ← splitTo frameLength
      let message ← Exec.lift (decodeFrame frame)
      pure (some message)

section Arms

theorem bare_eq_ok_iff {fields : List RlpItem} {m m' : Message} :
    (if !fields.isEmpty then .err (.invalidLength fields.length) else .ok m : Outcome RlpError Message) = .ok m' ↔
      fields = [] ∧ m = m' := by
  cases fields <;> simp

theorem bare_cons_eq_ok_iff {first : RlpItem} {fields : List RlpItem} {m m' : Message} :
    (if !fields.isEmpty then .err (.invalidLength fields.length) else .ok m : Outcome RlpError Message) = .ok m' ↔
      counted 1 (first :: fields) (.ok m) = .ok m' := by
  cases fields <;> simp [counted]

theorem counted_cons_eq_ok_iff {count : Nat} {first : RlpItem} {fields : List RlpItem}
    {body : Outcome RlpError Message} {m : Message} :
    counted count fields body = .ok m ↔ counted (count + 1) (first :: fields) body = .ok m := by
  simp only [counted, List.length_cons, ne_eq, Nat.add_right_cancel_iff]
  split <;> simp

/-- Tag by tag, the two decoders read the same messages from fields that are one position apart. Their errors
are not the same: each counts the fields that it has. -/
theorem decodeFields_eq_ok_iff {tag : UInt8} {first : RlpItem} {fields : List RlpItem} {m : Message} :
    decodeFields tag fields = .ok m ↔ decodeMessage tag (first :: fields) = .ok m := by
  unfold decodeFields decodeMessage
  split
  case h_1 | h_2 | h_12 => exact bare_cons_eq_ok_iff
  case h_14 => first | exact Iff.rfl | (split <;> first | contradiction | exact Iff.rfl)
  all_goals exact counted_cons_eq_ok_iff

/-- The fields that a message is spelled with are read back under its tag. -/
theorem decodeFields_message (m : Message) :
    ∃ tag fields, toRlpItem m = .list (tagItem tag :: fields) ∧ decodeFields tag fields = .ok m := by
  obtain ⟨tag, fields, spelled, read⟩ := toRlpItem_message m
  exact ⟨tag, fields, spelled, decodeFields_eq_ok_iff.mpr read⟩

theorem decodeFields_ne_panic (tag : UInt8) (fields : List RlpItem) : decodeFields tag fields ≠ .panic := by
  unfold decodeFields
  split
  case h_1 | h_2 | h_12 => split <;> simp
  case h_14 => simp
  all_goals refine counted_ne_panic fun length => ?_
  case h_3 | h_11 | h_13 =>
    exact fieldAt_then (by omega) fun _ => fieldAt_then (by omega) fun _ => fieldAt_then (by omega) fun _ => by simp
  case h_4 | h_7 | h_8 => exact listAt_then (by omega) fun _ => by simp
  case h_5 | h_6 => exact fieldAt_then (by omega) fun _ => fieldAt_then (by omega) fun _ => by simp
  case h_9 => exact reasonAt_then (by omega) fun _ => by simp
  case h_10 => exact fieldAt_then (by omega) fun _ => by simp

end Arms

section Specification

/-- The length that the first four bytes of a buffer announce. -/
def frameLength (src : Bytes) : Nat := beValue (src.take 4)

/-- A buffer holds a complete frame. -/
def Complete (src : Bytes) : Prop := 4 ≤ src.length ∧ 4 + frameLength src ≤ src.length

instance (src : Bytes) : Decidable (Complete src) := inferInstanceAs (Decidable (_ ∧ _))

theorem frameLength_lt (src : Bytes) : frameLength src < 2 ^ 32 := by
  have short : (src.take 4).length ≤ 4 := List.length_take_le 4 src
  calc frameLength src < 256 ^ (src.take 4).length := beValue_lt _
    _ ≤ 256 ^ 4 := Nat.pow_le_pow_right (by decide) short
    _ = 2 ^ 32 := by decide

theorem advance_run {src : Bytes} {count : Nat} (inside : count ≤ src.length) :
    advance count src = .ok ((), src.drop count) := by
  rw [advance, Exec.get_bind, sliceFrom_ok inside]
  rfl

theorem splitTo_run {src : Bytes} {count : Nat} (inside : count ≤ src.length) :
    splitTo count src = .ok (src.take count, src.drop count) := by
  rw [splitTo, Exec.get_bind, sliceTo_ok inside, sliceFrom_ok inside]
  rfl

/-- An incomplete frame is left in the buffer, and a complete one is taken off whatever it holds. -/
theorem decode_run (src : Bytes) :
    decode src =
      if Complete src then
        (do
          let message ← Exec.lift (decodeFrame ((src.drop 4).take (frameLength src)))
          pure (some message)) (src.drop (4 + frameLength src))
      else .ok (none, src) := by
  have small := frameLength_lt src
  rw [decode, Exec.get_bind]
  by_cases header : src.length < 4
  · rw [if_pos header, if_neg (fun complete => absurd complete.1 (by omega))]
    rfl
  · rw [if_neg header, sliceTo_ok (by omega), Exec.bind_ok (Exec.lift_ok _ _),
      usizeAdd_ok (by unfold frameLength at small; omega),
      Exec.bind_ok (Exec.lift_ok _ _)]
    by_cases short : src.length < 4 + beValue (src.take 4)
    · rw [if_pos short, if_neg (fun complete => absurd complete.2 (by unfold frameLength; omega))]
      rfl
    · rw [if_neg short, if_pos ⟨by omega, by unfold frameLength; omega⟩, Exec.bind_ok (advance_run (by omega)),
        Exec.bind_ok (splitTo_run (by rw [List.length_drop]; omega)), List.drop_drop]
      rfl

/-- `encode` has nothing to check but the length of the frame. -/
theorem encode_run {item : Message} {tag : UInt8} {fields : List RlpItem}
    (spelled : toRlpItem item = .list (tagItem tag :: fields)) (dst : Bytes) :
    encode item dst =
      (do
        let frameLength ← Exec.lift (usizeAdd 1 (serialize (.list fields)).length)
        if frameLength > maxFrameSize then
          Exec.throw (NetworkError.frameTooLarge frameLength)
        else
          Exec.modify (· ++ (toBeBytes 4 frameLength ++ tag :: serialize (.list fields)))) dst := by
  have tagged : (fieldAt (tagItem tag :: fields) 0 : Outcome RlpError U64) = .ok (BitVec.ofNat 64 tag.toNat) :=
    fieldAt_ok rfl
  simp only [encode, spelled, tagged, Outcome.mapErr_ok]
  rw [Exec.bind_ok (Exec.lift_ok _ _), sliceFrom_ok (by simp), Exec.bind_ok (Exec.lift_ok _ _),
    MiniEthNode.encode_eq, Outcome.mapErr_ok, Exec.bind_ok (Exec.lift_ok _ _), ofNat_tag]
  rfl

/-- What `encode` appends for a message that it accepts. -/
theorem encode_eq_ok {item : Message} {dst written : Bytes} (accepted : encode item dst = .ok ((), written)) :
    ∃ tag fields, toRlpItem item = .list (tagItem tag :: fields) ∧ decodeFields tag fields = .ok item ∧
      1 + (serialize (.list fields)).length ≤ maxFrameSize ∧
      written = dst ++ (toBeBytes 4 (1 + (serialize (.list fields)).length) ++ tag :: serialize (.list fields)) := by
  obtain ⟨tag, fields, spelled, read⟩ := decodeFields_message item
  refine ⟨tag, fields, spelled, read, ?_⟩
  rw [encode_run spelled] at accepted
  obtain ⟨length, _, sum, accepted⟩ := Exec.bind_eq_ok.mp accepted
  obtain ⟨sum, rfl⟩ := Exec.lift_eq_ok.mp sum
  unfold usizeAdd at sum
  split at sum
  · cases sum
    split at accepted
    · simp at accepted
    · rename_i fits
      cases accepted
      exact ⟨Nat.not_lt.mp fits, rfl⟩
  · cases sum

end Specification

section Wire

theorem frameLength_frame {length : Nat} (small : length < 2 ^ 32) (rest : Bytes) :
    frameLength (toBeBytes 4 length ++ rest) = length := by
  rw [frameLength, List.take_left' (toBeBytes_length 4 length), beValue_toBeBytes]
  exact Nat.mod_eq_of_lt small

/-- A complete frame is handed on, and the buffer is left behind it. -/
theorem decode_whole {body : Bytes} (small : body.length < 2 ^ 32) (rest : Bytes) :
    decode (toBeBytes 4 body.length ++ (body ++ rest)) =
      (do
        let message ← Exec.lift (decodeFrame body)
        pure (some message)) rest := by
  have header := toBeBytes_length 4 body.length
  have complete : Complete (toBeBytes 4 body.length ++ (body ++ rest)) := by
    rw [Complete, frameLength_frame small, List.length_append, List.length_append, header]
    omega
  rw [decode_run, if_pos complete, frameLength_frame small, ← List.drop_drop, List.drop_left' header,
    List.take_left, List.drop_left]

/-- A part of a frame stays in the buffer, also if it ends inside the length. -/
theorem decode_cut {body front : Bytes} (small : body.length < 2 ^ 32)
    (part : front <+: toBeBytes 4 body.length ++ body) (short : front.length < 4 + body.length) :
    decode front = .ok (none, front) := by
  rw [decode_run, if_neg]
  rintro ⟨header, whole⟩
  -- all four bytes of the length are there
  have same : front.take 4 = toBeBytes 4 body.length := by
    rw [List.prefix_iff_eq_take.mp part, List.take_take, Nat.min_eq_left header,
      List.take_left' (toBeBytes_length 4 body.length)]
  have length : frameLength front = body.length := by
    rw [frameLength, same, beValue_toBeBytes]
    exact Nat.mod_eq_of_lt small
  omega

/-- What follows the list of fields in a frame has no effect. -/
theorem decodeFrame_append (tag : UInt8) {fields : List RlpItem} (bound : (serialize (.list fields)).length < 2 ^ 64)
    (trailing : Bytes) :
    decodeFrame (tag :: (serialize (.list fields) ++ trailing)) = (decodeFields tag fields).mapErr .decode := by
  rw [decodeFrame, index_ok (by simp), Outcome.ok_bind, sliceFrom_ok (by simp), Outcome.ok_bind,
    List.drop_one, List.tail_cons, decode_serialize bound trailing]
  rfl

theorem decodeFrame_cons {tag : UInt8} {fields : List RlpItem} {item : Message}
    (bound : (serialize (.list fields)).length < 2 ^ 64) (read : decodeFields tag fields = .ok item) :
    decodeFrame (tag :: serialize (.list fields)) = .ok item := by
  have parsed := decodeFrame_append tag bound []
  rw [List.append_nil, read] at parsed
  exact parsed

/-- The bytes that `encode` writes are the frame of the message for `decode`. -/
theorem delimits_of_encode {item : Message} {dst frame : Bytes}
    (accepted : encode item dst = .ok ((), dst ++ frame)) : Stream.Delimits decode item frame := by
  obtain ⟨tag, fields, -, read, fits, same⟩ := encode_eq_ok accepted
  obtain rfl := List.append_cancel_left same
  have small : (tag :: serialize (.list fields)).length < 2 ^ 32 := by
    rw [List.length_cons, Nat.add_comm]
    exact fits.trans_lt (by decide)
  have bound : (serialize (.list fields)).length < 2 ^ 64 := by
    rw [List.length_cons] at small
    omega
  rw [Nat.add_comm 1, ← List.length_cons (a := tag)]
  constructor
  · intro rest
    rw [List.append_assoc, decode_whole small, decodeFrame_cons bound read]
    rfl
  · intro front part short
    rw [List.length_append, toBeBytes_length] at short
    exact decode_cut small part short

theorem decode_nil : decode [] = .ok (none, []) := rfl

theorem decode_none {src left : Bytes} (waits : decode src = .ok (none, left)) : left = src := by
  rw [decode_run] at waits
  split at waits
  · obtain ⟨_, _, _, done⟩ := Exec.bind_eq_ok.mp waits
    simp at done
  · cases waits
    rfl

/-- Whatever pieces a stream of frames arrives in, its messages are read in order, and nothing of
the stream is left over. -/
theorem decode_chunks {messages : List Message} {frames : List Bytes}
    (accepted : List.Forall₂ (fun message frame => ∃ dst, encode message dst = .ok ((), dst ++ frame)) messages frames)
    {chunks : List Bytes} (cut : chunks.flatten = frames.flatten) :
    (∀ received rest, Stream.Feeds decode [] chunks received rest ↔ received = messages ∧ rest = []) ∧
      ∀ src left, decode src = .ok (none, left) → left = src := by
  have framed : List.Forall₂ (Stream.Delimits decode) messages frames :=
    accepted.imp fun _ _ ⟨_, written⟩ => delimits_of_encode written
  exact ⟨fun _ _ => Stream.feeds_iff decode_nil framed cut, fun _ _ => decode_none⟩

/-- Three messages in three pieces: the first piece ends inside a length, the second inside a payload. -/
theorem decode_chunks_three :
    Stream.Feeds decode [] [[0, 0, 0, 2, 0, 0xc0, 0, 0], [0, 6, 0x0a, 0xc4, 0x83, 98], [121, 101, 0, 0, 0, 2, 0x0d, 0xc0]]
      [.ping, .disconnect "bye", .getChainHead] [] := by
  have accepted : List.Forall₂ (fun message frame => ∃ dst, encode message dst = .ok ((), dst ++ frame))
      [.ping, .disconnect "bye", .getChainHead]
      [[0, 0, 0, 2, 0, 0xc0], [0, 0, 0, 6, 0x0a, 0xc4, 0x83, 98, 121, 101], [0, 0, 0, 2, 0x0d, 0xc0]] :=
    .cons ⟨[], by decide +kernel⟩ (.cons ⟨[], by decide +kernel⟩ (.cons ⟨[], by decide +kernel⟩ .nil))
  refine ((decode_chunks accepted ?_).1 _ _).mpr ⟨rfl, rfl⟩
  rfl

end Wire

section Safety

theorem decodeFrame_ne_panic {frame : Bytes} (nonempty : frame ≠ []) : decodeFrame frame ≠ .panic := by
  have positive := List.length_pos_iff.mpr nonempty
  rw [decodeFrame, index_ok positive, Outcome.ok_bind, sliceFrom_ok positive, Outcome.ok_bind]
  refine Outcome.bind_ne_panic (Outcome.mapErr_ne_panic (decode_ne_panic _)) fun parsed _ => ?_
  obtain ⟨item, _⟩ := parsed
  cases item with
  | bytes data => simp
  | list fields => exact Outcome.mapErr_ne_panic (decodeFields_ne_panic _ fields)

/-- A buffer that announces a frame without a tag: the length is complete, and it is zero. -/
theorem zeros_prefix_iff {src : Bytes} : [0, 0, 0, 0] <+: src ↔ Complete src ∧ frameLength src = 0 := by
  constructor
  · rintro ⟨rest, rfl⟩
    refine ⟨⟨by simp, ?_⟩, rfl⟩
    simp [frameLength, beValue]
  · rintro ⟨⟨header, _⟩, zero⟩
    have length : (src.take 4).length = ([0, 0, 0, 0] : Bytes).length := List.length_take_of_le header
    have same : src.take 4 = [0, 0, 0, 0] := beValue_injOn_length length zero
    exact ⟨src.drop 4, by rw [← same, List.take_append_drop]⟩

/-- A buffer that announces a tag is handled in one of three ways. -/
theorem decode_cases (src : Bytes) (tagged : ¬ [0, 0, 0, 0] <+: src) :
    decode src = .ok (none, src) ∨
      4 + frameLength src ≤ src.length ∧
        ((∃ message, decode src = .ok (some message, src.drop (4 + frameLength src))) ∨
          ∃ error, decode src = .err (error, src.drop (4 + frameLength src))) := by
  rw [decode_run]
  split
  · rename_i complete
    have positive : 0 < frameLength src :=
      Nat.pos_of_ne_zero fun zero => tagged (zeros_prefix_iff.mpr ⟨complete, zero⟩)
    have nonempty : (src.drop 4).take (frameLength src) ≠ [] := by
      refine List.ne_nil_of_length_pos ?_
      have enough := complete.2
      rw [List.length_take, List.length_drop]
      omega
    refine .inr ⟨complete.2, ?_⟩
    rw [Exec.lift_bind]
    cases ended : decodeFrame ((src.drop 4).take (frameLength src)) with
    | ok message => exact .inl ⟨message, rfl⟩
    | err error => exact .inr ⟨error, rfl⟩
    | panic => exact absurd ended (decodeFrame_ne_panic nonempty)
  · exact .inl rfl

/-- A frame without a tag stops the task, and nothing else does. -/
theorem decode_eq_panic_iff {src : Bytes} : decode src = .panic ↔ [0, 0, 0, 0] <+: src := by
  constructor
  · intro stopped
    by_contra tagged
    rcases decode_cases src tagged with waits | ⟨_, ⟨_, read⟩ | ⟨_, failed⟩⟩
    · simp [stopped] at waits
    · simp [stopped] at read
    · simp [stopped] at failed
  · intro zeros
    obtain ⟨complete, zero⟩ := zeros_prefix_iff.mp zeros
    rw [decode_run, if_pos complete, zero, List.take_zero]
    rfl

/-- A call returns exactly if its buffer does not start with four zero bytes. It leaves the buffer as it is if a
frame is incomplete, and takes exactly the frame off otherwise, whether it holds a message or not. -/
theorem decode_returns (src : Bytes) :
    (decode src ≠ .panic ↔ ¬ [0, 0, 0, 0] <+: src) ∧ (∀ left, decode src = .ok (none, left) → left = src) ∧
      (∀ message left, decode src = .ok (some message, left) →
        4 + frameLength src ≤ src.length ∧ left = src.drop (4 + frameLength src)) ∧
      ∀ error left, decode src = .err (error, left) →
        4 + frameLength src ≤ src.length ∧ left = src.drop (4 + frameLength src) := by
  refine ⟨not_congr decode_eq_panic_iff, ?_⟩
  by_cases zeros : [0, 0, 0, 0] <+: src
  · rw [decode_eq_panic_iff.mpr zeros]
    simp
  · rcases decode_cases src zeros with waits | ⟨whole, ⟨message, read⟩ | ⟨error, failed⟩⟩
    · rw [waits]
      simp
    · rw [read]
      simp [whole]
    · rw [failed]
      simp [whole]

/-- A ping in front of one more byte. -/
theorem decode_returns_ping : decode [0, 0, 0, 2, 0, 0xc0, 7] = .ok (some .ping, [7]) ∧
    decode [0, 0, 0, 2, 0, 0xc0, 7] ≠ .panic :=
  ⟨by decide +kernel, (decode_returns [0, 0, 0, 2, 0, 0xc0, 7]).1.mpr (by decide)⟩

/-- Four zero bytes are a frame without a tag, and `frame[0]` is out of range. -/
theorem decode_four_zeros : decode [0, 0, 0, 0] = .panic := by
  decide +kernel

end Safety

end EthCodec

end MiniEthNode
