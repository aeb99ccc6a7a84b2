import MiniEthNode.RlpCodec.Decodable

namespace MiniEthNode
open Rust Rlp

structure BlockAnnouncement where
  hash : B256
  number : U64
  deriving DecidableEq

instance : RlpEncodable BlockAnnouncement where
  toRlpItem announcement := .list [toRlpItem announcement.hash, toRlpItem announcement.number]

instance : RlpDecodable BlockAnnouncement where
  fromRlpItem item := do
    let x ← fieldsOf 2 item
    let hash ← fieldAt x 0
    let number ← fieldAt x 1
    .ok ⟨hash, number⟩

instance : RlpLawful BlockAnnouncement where
  roundTrip announcement := fieldsOf_bind rfl <| fieldAt_bind rfl <| fieldAt_bind rfl rfl
  total := fieldsOf_then fun x length => fieldAt_then (by omega) fun _ => fieldAt_then (by omega) fun _ => by simp

inductive Message where
  | ping
  | pong
  | status (chainId : U64) (headHash : B256) (totalDifficulty : U128)
  | transactions (txs : List Transaction)
  | getBlockHeaders (startHash : B256) (count : U64)
  | newBlock (block : Block) (td : U128)
  | newBlockHashes (newBlocks : List BlockAnnouncement)
  | blockHeaders (headers : List Header)
  | disconnect (reason : String)
  | getAccountState (address : Address)
  | accountState (address : Address) (nonce : U64) (balance : U128)
  | getChainHead
  | chainHead (number : U64) (hash : B256) (totalDifficulty : U128)
  deriving DecidableEq

@[match_pattern] def msgPing : UInt8 := 0x00
@[match_pattern] def msgPong : UInt8 := 0x01
@[match_pattern] def msgStatus : UInt8 := 0x02
@[match_pattern] def msgTransactions : UInt8 := 0x03
@[match_pattern] def msgGetBlockHeaders : UInt8 := 0x04
@[match_pattern] def msgNewBlock : UInt8 := 0x07
@[match_pattern] def msgNewBlockHashes : UInt8 := 0x08
@[match_pattern] def msgBlockHeaders : UInt8 := 0x09
@[match_pattern] def msgDisconnect : UInt8 := 0x0a
@[match_pattern] def msgGetAccountState : UInt8 := 0x0b
@[match_pattern] def msgAccountState : UInt8 := 0x0c
@[match_pattern] def msgGetChainHead : UInt8 := 0x0d
@[match_pattern] def msgChainHead : UInt8 := 0x0e

/-- `(tag as u64).to_rlp_item()`. -/
def tagItem (tag : UInt8) : RlpItem := toRlpItem (BitVec.ofNat 64 tag.toNat)

/-- `Bytes::from(reason.clone())`: the UTF-8 bytes of the text. -/
def reasonBytes (reason : String) : Bytes := reason.toByteArray.data.toList

/-- `str::from_utf8` of a field, as the text. -/
def reasonFromRlpItem : RlpItem → Outcome RlpError String
  | .list _ => .err (.unexpectedType 0xc0)
  | .bytes bytes => Outcome.okOr (String.fromUTF8? ⟨bytes.toArray⟩) .invalidString

instance : RlpEncodable Message where
  toRlpItem
    | .ping => .list [tagItem msgPing]
    | .pong => .list [tagItem msgPong]
    | .status chainId headHash totalDifficulty =>
      .list [tagItem msgStatus, toRlpItem chainId, toRlpItem headHash, toRlpItem totalDifficulty]
    | .transactions txs => .list [tagItem msgTransactions, .list (txs.map toRlpItem)]
    | .getBlockHeaders startHash count =>
      .list [tagItem msgGetBlockHeaders, toRlpItem startHash, toRlpItem count]
    | .newBlock block td => .list [tagItem msgNewBlock, toRlpItem block, toRlpItem td]
    | .newBlockHashes newBlocks => .list [tagItem msgNewBlockHashes, .list (newBlocks.map toRlpItem)]
    | .blockHeaders headers => .list [tagItem msgBlockHeaders, .list (headers.map toRlpItem)]
    | .disconnect reason => .list [tagItem msgDisconnect, .bytes (reasonBytes reason)]
    | .getAccountState address => .list [tagItem msgGetAccountState, toRlpItem address]
    | .accountState address nonce balance =>
      .list [tagItem msgAccountState, toRlpItem address, toRlpItem nonce, toRlpItem balance]
    | .getChainHead => .list [tagItem msgGetChainHead]
    | .chainHead number hash totalDifficulty =>
      .list [tagItem msgChainHead, toRlpItem number, toRlpItem hash, toRlpItem totalDifficulty]

/-- The check on the number of fields that opens every arm. -/
def counted (count : Nat) (x : List RlpItem) (body : Outcome RlpError Message) : Outcome RlpError Message :=
  if x.length ≠ count then .err (.invalidLength x.length) else body

/-- The `match` on the tag of `Message::from_rlp_item`. The tag itself is `x[0]`. -/
def decodeMessage (tag : UInt8) (x : List RlpItem) : Outcome RlpError Message :=
  match tag with
  | msgPing => counted 1 x (.ok .ping)
  | msgPong => counted 1 x (.ok .pong)
  | msgStatus => counted 4 x do
    let chainId ← fieldAt x 1
    let headHash ← fieldAt x 2
    let totalDifficulty ← fieldAt x 3
    .ok (.status chainId headHash totalDifficulty)
  | msgTransactions => counted 2 x do
    let txs ← listAt x 1
    .ok (.transactions txs)
  | msgGetBlockHeaders => counted 3 x do
    let startHash ← fieldAt x 1
    let count ← fieldAt x 2
    .ok (.getBlockHeaders startHash count)
  | msgNewBlock => counted 3 x do
    let block ← fieldAt x 1
    let td ← fieldAt x 2
    .ok (.newBlock block td)
  | msgNewBlockHashes => counted 2 x do
    let newBlocks ← listAt x 1
    .ok (.newBlockHashes newBlocks)
  | msgBlockHeaders => counted 2 x do
    let headers ← listAt x 1
    .ok (.blockHeaders headers)
  | msgDisconnect => counted 2 x do
    let item ← index x 1
    let reason ← reasonFromRlpItem item
    .ok (.disconnect reason)
  | msgGetAccountState => counted 2 x do
    let address ← fieldAt x 1
    .ok (.getAccountState address)
  | msgAccountState => counted 4 x do
    let address ← fieldAt x 1
    let nonce ← fieldAt x 2
    let balance ← fieldAt x 3
    .ok (.accountState address nonce balance)
  | msgGetChainHead => counted 1 x (.ok .getChainHead)
  | msgChainHead => counted 4 x do
    let number ← fieldAt x 1
    let hash ← fieldAt x 2
    let totalDifficulty ← fieldAt x 3
    .ok (.chainHead number hash totalDifficulty)
  | _ => .err (.unexpectedType tag)

instance : RlpDecodable Message where
  fromRlpItem
    | .bytes _ => .err (.unexpectedType 0x80)
    | .list x =>
      if x.isEmpty then .err (.invalidLength 0)
      else do
        let tag : U64 ← fieldAt x 0
        decodeMessage (UInt8.ofNat tag.toNat) x

theorem counted_bind {count : Nat} {x : List RlpItem} {body : Outcome RlpError Message} {m : Message}
    (length : x.length = count) (read : body = .ok m) : counted count x body = .ok m := by
  rw [counted, if_neg (not_not.mpr length), read]

theorem counted_eq_ok_iff {count : Nat} {x : List RlpItem} {body : Outcome RlpError Message} {m : Message} :
    counted count x body = .ok m ↔ x.length = count ∧ body = .ok m := by
  unfold counted
  split
  · rename_i other
    simp [other]
  · rename_i length
    simp [not_not.mp length]

theorem counted_ne_panic {count : Nat} {x : List RlpItem} {body : Outcome RlpError Message}
    (inside : x.length = count → body ≠ .panic) : counted count x body ≠ .panic := by
  rw [counted]
  split
  · simp
  · rename_i length
    exact inside (not_not.mp length)

theorem reasonFromRlpItem_reasonBytes (reason : String) :
    reasonFromRlpItem (.bytes (reasonBytes reason)) = .ok reason := by
  have valid : (ByteArray.mk (reasonBytes reason).toArray).IsValidUTF8 := reason.isValidUTF8
  rw [reasonFromRlpItem, String.fromUTF8?, dif_pos valid]
  rfl

theorem reasonFromRlpItem_eq_ok {item : RlpItem} {reason : String} (read : reasonFromRlpItem item = .ok reason) :
    item = .bytes (reasonBytes reason) := by
  cases item with
  | list items => cases read
  | bytes bytes =>
    rw [reasonFromRlpItem, String.fromUTF8?] at read
    split at read
    · cases read
      rfl
    · cases read

theorem reasonFromRlpItem_ne_panic (item : RlpItem) : reasonFromRlpItem item ≠ .panic := by
  cases item with
  | list items => simp [reasonFromRlpItem]
  | bytes bytes => exact Outcome.okOr_ne_panic

/-- A message is the list of its tag and its fields, and is read back under that tag. -/
theorem toRlpItem_message (m : Message) :
    ∃ tag fields, toRlpItem m = .list (tagItem tag :: fields) ∧ decodeMessage tag (tagItem tag :: fields) = .ok m := by
  cases m with
  | ping => exact ⟨msgPing, _, rfl, rfl⟩
  | pong => exact ⟨msgPong, _, rfl, rfl⟩
  | status chainId headHash totalDifficulty =>
    exact ⟨msgStatus, _, rfl, counted_bind rfl <| fieldAt_bind rfl <| fieldAt_bind rfl <| fieldAt_bind rfl rfl⟩
  | transactions txs => exact ⟨msgTransactions, _, rfl, counted_bind rfl <| listAt_bind rfl rfl⟩
  | getBlockHeaders startHash count =>
    exact ⟨msgGetBlockHeaders, _, rfl, counted_bind rfl <| fieldAt_bind rfl <| fieldAt_bind rfl rfl⟩
  | newBlock block td =>
    exact ⟨msgNewBlock, _, rfl, counted_bind rfl <| fieldAt_bind rfl <| fieldAt_bind rfl rfl⟩
  | newBlockHashes newBlocks => exact ⟨msgNewBlockHashes, _, rfl, counted_bind rfl <| listAt_bind rfl rfl⟩
  | blockHeaders headers => exact ⟨msgBlockHeaders, _, rfl, counted_bind rfl <| listAt_bind rfl rfl⟩
  | disconnect reason =>
    refine ⟨msgDisconnect, _, rfl, counted_bind rfl ?_⟩
    exact Outcome.bind_eq_ok.mpr ⟨_, rfl, Outcome.bind_eq_ok.mpr ⟨_, reasonFromRlpItem_reasonBytes reason, rfl⟩⟩
  | getAccountState address => exact ⟨msgGetAccountState, _, rfl, counted_bind rfl <| fieldAt_bind rfl rfl⟩
  | accountState address nonce balance =>
    exact ⟨msgAccountState, _, rfl, counted_bind rfl <| fieldAt_bind rfl <| fieldAt_bind rfl <| fieldAt_bind rfl rfl⟩
  | getChainHead => exact ⟨msgGetChainHead, _, rfl, rfl⟩
  | chainHead number hash totalDifficulty =>
    exact ⟨msgChainHead, _, rfl, counted_bind rfl <| fieldAt_bind rfl <| fieldAt_bind rfl <| fieldAt_bind rfl rfl⟩

theorem reasonAt_then {x : List RlpItem} {i : Nat} {next : String → Outcome RlpError Message}
    (inside : i < x.length) (later : ∀ a, next a ≠ .panic) :
    (index x i >>= fun item => reasonFromRlpItem item >>= next) ≠ .panic := by
  rw [index_ok inside, Outcome.ok_bind]
  exact Outcome.bind_ne_panic (reasonFromRlpItem_ne_panic _) fun a _ => later a

/-- Every field that an arm reads is there once the number of fields has been checked. -/
theorem decodeMessage_ne_panic (tag : UInt8) (x : List RlpItem) : decodeMessage tag x ≠ .panic := by
  unfold decodeMessage
  split <;> try refine counted_ne_panic fun length => ?_
  case h_3 | h_11 | h_13 =>
    exact fieldAt_then (by omega) fun _ => fieldAt_then (by omega) fun _ => fieldAt_then (by omega) fun _ => by simp
  case h_4 | h_7 | h_8 => exact listAt_then (by omega) fun _ => by simp
  case h_5 | h_6 => exact fieldAt_then (by omega) fun _ => fieldAt_then (by omega) fun _ => by simp
  case h_9 => exact reasonAt_then (by omega) fun _ => by simp
  case h_10 => exact fieldAt_then (by omega) fun _ => by simp
  all_goals simp

theorem fromRlpItem_message (first : RlpItem) (x : List RlpItem) :
    (fromRlpItem (.list (first :: x)) : Outcome RlpError Message) =
      (fromRlpItem first >>= fun tag : U64 => decodeMessage (UInt8.ofNat tag.toNat) (first :: x)) := rfl

theorem ofNat_tag (tag : UInt8) : UInt8.ofNat (BitVec.ofNat 64 tag.toNat).toNat = tag := by
  have small : tag.toNat < 2 ^ 64 := tag.toNat_lt.trans (by decide)
  rw [BitVec.toNat_ofNat, Nat.mod_eq_of_lt small, UInt8.ofNat_toNat]

instance : RlpLawful Message where
  roundTrip m := by
    obtain ⟨tag, fields, spelled, read⟩ := toRlpItem_message m
    rw [spelled, fromRlpItem_message, tagItem, RlpLawful.roundTrip, Outcome.ok_bind, ofNat_tag]
    exact read
  total item := by
    cases item with
    | bytes b => simp [fromRlpItem]
    | list x =>
      cases x with
      | nil => simp [fromRlpItem]
      | cons first x =>
        rw [fromRlpItem_message]
        exact Outcome.bind_ne_panic (RlpLawful.total first) fun _ _ => decodeMessage_ne_panic _ _

end MiniEthNode
