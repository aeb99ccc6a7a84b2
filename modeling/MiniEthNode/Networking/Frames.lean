import MiniEthNode.Networking.Codec

namespace MiniEthNode.EthCodec
open Rust Rlp

/-- The frame with a tag and a payload. -/
def framed (tag : UInt8) (payload : Bytes) : Bytes := toBeBytes 4 (1 + payload.length) ++ tag :: payload

theorem decode_framed (tag : UInt8) {payload : Bytes} (fits : 1 + payload.length < 2 ^ 32) (rest : Bytes) :
    decode (framed tag payload ++ rest) =
      (do
        let message ← Exec.lift (decodeFrame (tag :: payload))
        pure (some message)) rest := by
  have length : (tag :: payload).length = 1 + payload.length := Nat.add_comm _ _
  rw [framed, List.append_assoc, ← length]
  exact decode_whole (length.trans_lt fits) rest

/-- A frame that holds the fields of its tag, with more bytes behind them or not. -/
theorem decode_framed_fields (tag : UInt8) {fields : List RlpItem} {trailing : Bytes}
    (fits : 1 + (serialize (.list fields) ++ trailing).length < 2 ^ 32) :
    decode (framed tag (serialize (.list fields) ++ trailing)) =
      (do
        let message ← Exec.lift ((decodeFields tag fields).mapErr NetworkError.decode)
        pure (some message)) [] := by
  have bound : (serialize (.list fields)).length < 2 ^ 64 := by
    rw [List.length_append] at fits
    omega
  have read := decode_framed tag fits []
  rwa [List.append_nil, decodeFrame_append tag bound] at read

section Trailing

theorem tagItem_inj {tag tag' : UInt8} (same : tagItem tag = tagItem tag') : tag = tag' := by
  have values := congrArg (fun value : U64 => UInt8.ofNat value.toNat) (toRlpItem_inj same)
  simpa only [ofNat_tag] using values

/-- The fields that a message is sent with are read back under its own tag. -/
theorem decodeFields_of_spelled {m : Message} {tag : UInt8} {fields : List RlpItem}
    (spelled : toRlpItem m = .list (tagItem tag :: fields)) : decodeFields tag fields = .ok m := by
  obtain ⟨tag', fields', spelled', read⟩ := decodeFields_message m
  obtain ⟨same, rfl⟩ := List.cons.inj (Item.list.inj (spelled.symm.trans spelled'))
  rwa [tagItem_inj same]

/-- The frame of a message stays a frame of it whatever bytes are appended to its payload. -/
theorem decode_ignores_trailing (m : Message) (tag : UInt8) (fields : List RlpItem)
    (spelled : toRlpItem m = .list (tagItem tag :: fields)) (trailing : Bytes)
    (fits : 1 + (serialize (.list fields) ++ trailing).length < 2 ^ 32) :
    decode (framed tag (serialize (.list fields) ++ trailing)) = .ok (some m, []) := by
  rw [decode_framed_fields tag fits, decodeFields_of_spelled spelled]
  rfl

/-- A text that is followed by another frame. -/
theorem decode_ignores_trailing_disconnect :
    decode (framed msgDisconnect (serialize (.list [.bytes [98, 121, 101]]) ++ [0, 0, 0, 2, 0, 0xc0])) =
      .ok (some (.disconnect "bye"), []) := by
  have text : reasonBytes "bye" = [98, 121, 101] := by decide +kernel
  have spelled : toRlpItem (Message.disconnect "bye") = .list [tagItem msgDisconnect, .bytes [98, 121, 101]] := by
    rw [← text]
    rfl
  exact decode_ignores_trailing _ _ _ spelled [0, 0, 0, 2, 0, 0xc0] (by decide +kernel)

/-- A ping with one more byte than it needs. -/
theorem decode_trailing_ping :
    toRlpItem Message.ping = .list [tagItem msgPing] ∧ serialize (.list []) = [0xc0] ∧
      framed msgPing ([0xc0] ++ [7]) = [0, 0, 0, 3, 0, 0xc0, 7] ∧
      decode [0, 0, 0, 3, 0, 0xc0, 7] = .ok (some .ping, []) := by
  refine ⟨rfl, by decide +kernel, by decide +kernel, by decide +kernel⟩

end Trailing

section Typing

/-- What a field of a message is. -/
inductive FieldKind where
  | integer (size : Nat)
  | fixed (size : Nat)
  | text
  | block
  | transactions
  | announcements
  | headers

/-- The fields that belong to a tag. -/
def fieldKinds : UInt8 → Option (List FieldKind)
  | msgPing | msgPong | msgGetChainHead => some []
  | msgStatus => some [.integer 8, .fixed 32, .integer 16]
  | msgTransactions => some [.transactions]
  | msgGetBlockHeaders => some [.fixed 32, .integer 8]
  | msgNewBlock => some [.block, .integer 16]
  | msgNewBlockHashes => some [.announcements]
  | msgBlockHeaders => some [.headers]
  | msgDisconnect => some [.text]
  | msgGetAccountState => some [.fixed 20]
  | msgAccountState => some [.fixed 20, .integer 8, .integer 16]
  | msgChainHead => some [.integer 8, .fixed 32, .integer 16]
  | _ => none

/-- An item that holds a value of a type. -/
def Decodes (α : Type) [RlpDecodable α] (item : RlpItem) : Prop := ∃ value : α, fromRlpItem item = .ok value

/-- An item that can be a field of a kind. -/
def FieldKind.Admits : FieldKind → RlpItem → Prop
  | .integer size, .bytes x => x.length ≤ size
  | .fixed size, .bytes x => x.length = size
  | .text, .bytes x => ∃ reason : String, x = reasonBytes reason
  | .block, item => Decodes Block item
  | .transactions, .list items => ∀ item ∈ items, Decodes Transaction item
  | .announcements, .list items => ∀ item ∈ items, Decodes BlockAnnouncement item
  | .headers, .list items => ∀ item ∈ items, Decodes Header item
  | .integer _, .list _ | .fixed _, .list _ | .text, .list _ => False
  | .transactions, .bytes _ | .announcements, .bytes _ | .headers, .bytes _ => False

/-- The byte is a tag, and the fields are those of the tag, in number and in kind. -/
def WellTyped (tag : UInt8) (fields : List RlpItem) : Prop :=
  ∃ kinds, fieldKinds tag = some kinds ∧ List.Forall₂ FieldKind.Admits kinds fields

theorem integerFromRlpItem_iff {size : Nat} {item : RlpItem} :
    (∃ value, integerFromRlpItem size item = .ok value) ↔ (FieldKind.integer size).Admits item := by
  cases item with
  | list items => simp [integerFromRlpItem, FieldKind.Admits]
  | bytes x =>
    rw [integerFromRlpItem, FieldKind.Admits]
    split
    · rename_i long
      simp [Nat.not_le.mpr long]
    · rename_i fits
      simp [fromBeBytes_ok (Nat.not_lt.mp fits), Nat.not_lt.mp fits]

theorem decodes_u64_iff (item : RlpItem) : Decodes U64 item ↔ (FieldKind.integer 8).Admits item := by
  rw [← integerFromRlpItem_iff]
  simp [Decodes, fromRlpItem, Outcome.bind_eq_ok]

theorem decodes_u128_iff (item : RlpItem) : Decodes U128 item ↔ (FieldKind.integer 16).Admits item := by
  rw [← integerFromRlpItem_iff]
  simp [Decodes, fromRlpItem, Outcome.bind_eq_ok]

theorem decodes_fixed_iff {size : Nat} (item : RlpItem) :
    Decodes (FixedBytes size) item ↔ (FieldKind.fixed size).Admits item := by
  cases item with
  | list items => simp [Decodes, fromRlpItem, FieldKind.Admits]
  | bytes x =>
    rw [FieldKind.Admits]
    constructor
    · rintro ⟨value, read⟩
      rw [← FixedBytes.tryFrom_eq_ok (Outcome.mapErr_eq_ok.mp read), value.length_eq]
    · intro length
      exact ⟨⟨x, length⟩, Outcome.mapErr_eq_ok.mpr (dif_pos length)⟩

theorem decodeAll_iff {α : Type} [RlpDecodable α] {items : List RlpItem} :
    (∃ values : List α, decodeAll items = .ok values) ↔ ∀ item ∈ items, Decodes α item := by
  induction items with
  | nil => simp [decodeAll]
  | cons item rest ih =>
    rw [List.forall_mem_cons, ← ih]
    simp only [decodeAll, Outcome.bind_eq_ok, Decodes]
    constructor
    · rintro ⟨_, value, first, others, behind, _⟩
      exact ⟨⟨value, first⟩, others, behind⟩
    · rintro ⟨⟨value, first⟩, others, behind⟩
      exact ⟨_, value, first, others, behind, rfl⟩

theorem reasonFromRlpItem_iff (item : RlpItem) :
    (∃ reason, reasonFromRlpItem item = .ok reason) ↔ FieldKind.text.Admits item := by
  constructor
  · rintro ⟨reason, read⟩
    rw [reasonFromRlpItem_eq_ok read]
    exact ⟨reason, rfl⟩
  · intro admits
    cases item with
    | list items => cases admits
    | bytes x =>
      obtain ⟨reason, rfl⟩ := admits
      exact ⟨reason, reasonFromRlpItem_reasonBytes reason⟩

theorem decodeListOf_iff {α : Type} [RlpDecodable α] {kind : FieldKind}
    (listed : ∀ items, kind.Admits (.list items) ↔ ∀ item ∈ items, Decodes α item)
    (plain : ∀ x, ¬ kind.Admits (.bytes x)) (item : RlpItem) :
    (∃ values : List α, decodeListOf item = .ok values) ↔ kind.Admits item := by
  cases item with
  | bytes x => simp [decodeListOf, plain]
  | list items => rw [decodeListOf, decodeAll_iff, listed]

/-- An arm with one field, which `read` takes. -/
theorem counted_one {α : Type} {fields : List RlpItem} {read : RlpItem → Outcome RlpError α} {make : α → Message}
    {kind : FieldKind} (admits : ∀ item, (∃ a, read item = .ok a) ↔ kind.Admits item) :
    (∃ m, counted 1 fields ((index fields 0 >>= read) >>= fun a => .ok (make a)) = .ok m) ↔
      List.Forall₂ FieldKind.Admits [kind] fields := by
  simp only [counted_eq_ok_iff, List.length_eq_one_iff]
  constructor
  · rintro ⟨_, ⟨item, rfl⟩, body⟩
    obtain ⟨a, first, _⟩ := Outcome.bind_eq_ok.mp body
    exact .cons ((admits item).mp ⟨a, first⟩) .nil
  · rintro (_ | ⟨here, ⟨⟩⟩)
    obtain ⟨a, first⟩ := (admits _).mpr here
    exact ⟨make a, ⟨_, rfl⟩, Outcome.bind_eq_ok.mpr ⟨a, first, rfl⟩⟩

theorem counted_two {α β : Type} [RlpDecodable α] [RlpDecodable β] {fields : List RlpItem} {make : α → β → Message}
    {kind kind' : FieldKind} (admits : ∀ item, Decodes α item ↔ kind.Admits item)
    (admits' : ∀ item, Decodes β item ↔ kind'.Admits item) :
    (∃ m, counted 2 fields (fieldAt fields 0 >>= fun a => fieldAt fields 1 >>= fun b => .ok (make a b)) = .ok m) ↔
      List.Forall₂ FieldKind.Admits [kind, kind'] fields := by
  simp only [counted_eq_ok_iff, List.length_eq_two]
  constructor
  · rintro ⟨_, ⟨first, second, rfl⟩, body⟩
    obtain ⟨a, read, body⟩ := Outcome.bind_eq_ok.mp body
    obtain ⟨b, read', _⟩ := Outcome.bind_eq_ok.mp body
    exact .cons ((admits first).mp ⟨a, read⟩) (.cons ((admits' second).mp ⟨b, read'⟩) .nil)
  · rintro (_ | ⟨here, _ | ⟨here', ⟨⟩⟩⟩)
    obtain ⟨a, read⟩ := (admits _).mpr here
    obtain ⟨b, read'⟩ := (admits' _).mpr here'
    exact ⟨make a b, ⟨_, _, rfl⟩, Outcome.bind_eq_ok.mpr ⟨a, read, Outcome.bind_eq_ok.mpr ⟨b, read', rfl⟩⟩⟩

theorem counted_three {α β γ : Type} [RlpDecodable α] [RlpDecodable β] [RlpDecodable γ] {fields : List RlpItem}
    {make : α → β → γ → Message} {kind kind' kind'' : FieldKind} (admits : ∀ item, Decodes α item ↔ kind.Admits item)
    (admits' : ∀ item, Decodes β item ↔ kind'.Admits item) (admits'' : ∀ item, Decodes γ item ↔ kind''.Admits item) :
    (∃ m, counted 3 fields (fieldAt fields 0 >>= fun a => fieldAt fields 1 >>= fun b => fieldAt fields 2 >>= fun c =>
        .ok (make a b c)) = .ok m) ↔
      List.Forall₂ FieldKind.Admits [kind, kind', kind''] fields := by
  simp only [counted_eq_ok_iff, List.length_eq_three]
  constructor
  · rintro ⟨_, ⟨first, second, third, rfl⟩, body⟩
    obtain ⟨a, read, body⟩ := Outcome.bind_eq_ok.mp body
    obtain ⟨b, read', body⟩ := Outcome.bind_eq_ok.mp body
    obtain ⟨c, read'', _⟩ := Outcome.bind_eq_ok.mp body
    exact .cons ((admits first).mp ⟨a, read⟩) (.cons ((admits' second).mp ⟨b, read'⟩)
      (.cons ((admits'' third).mp ⟨c, read''⟩) .nil))
  · rintro (_ | ⟨here, _ | ⟨here', _ | ⟨here'', ⟨⟩⟩⟩⟩)
    obtain ⟨a, read⟩ := (admits _).mpr here
    obtain ⟨b, read'⟩ := (admits' _).mpr here'
    obtain ⟨c, read''⟩ := (admits'' _).mpr here''
    exact ⟨make a b c, ⟨_, _, _, rfl⟩, Outcome.bind_eq_ok.mpr ⟨a, read,
      Outcome.bind_eq_ok.mpr ⟨b, read', Outcome.bind_eq_ok.mpr ⟨c, read'', rfl⟩⟩⟩⟩

theorem wellTyped_iff {tag : UInt8} {kinds : List FieldKind} {fields : List RlpItem}
    (found : fieldKinds tag = some kinds) : WellTyped tag fields ↔ List.Forall₂ FieldKind.Admits kinds fields := by
  simp [WellTyped, found]

/-- A message is read from the fields of a tag, and from nothing else. -/
theorem decodeFields_iff {tag : UInt8} {fields : List RlpItem} :
    (∃ m, decodeFields tag fields = .ok m) ↔ WellTyped tag fields := by
  unfold decodeFields
  split
  case h_14 =>
    unfold WellTyped fieldKinds
    split <;> first | contradiction | simp
  all_goals rw [wellTyped_iff rfl]
  case h_1 | h_2 | h_12 =>
    rw [List.forall₂_nil_left_iff]
    simp only [bare_eq_ok_iff, exists_and_left, exists_eq', and_true]
  case h_3 => exact counted_three decodes_u64_iff decodes_fixed_iff decodes_u128_iff
  case h_4 => exact counted_one (decodeListOf_iff (fun _ => Iff.rfl) fun _ => id)
  case h_5 => exact counted_two decodes_fixed_iff decodes_u64_iff
  case h_6 => exact counted_two (fun _ => Iff.rfl) decodes_u128_iff
  case h_7 => exact counted_one (decodeListOf_iff (fun _ => Iff.rfl) fun _ => id)
  case h_8 => exact counted_one (decodeListOf_iff (fun _ => Iff.rfl) fun _ => id)
  case h_9 =>
    have arm : (∃ m, counted 1 fields ((index fields 0 >>= reasonFromRlpItem) >>= fun reason =>
        .ok (.disconnect reason)) = .ok m) ↔ List.Forall₂ FieldKind.Admits [.text] fields :=
      counted_one reasonFromRlpItem_iff
    rwa [Outcome.bind_assoc] at arm
  case h_10 => exact counted_one decodes_fixed_iff
  case h_11 => exact counted_three decodes_fixed_iff decodes_u64_iff decodes_u128_iff
  case h_13 => exact counted_three decodes_u64_iff decodes_fixed_iff decodes_u128_iff

end Typing

section Agreement

/-- What it means for both decoders to agree on a tag and a list of fields. A tag that is no byte has no frame. -/
def DecodersAgree (tag : U64) (fields : List RlpItem) : Prop :=
  (∀ m : Message, fromRlpItem (.list (toRlpItem tag :: fields)) = .ok m ↔
    tag.toNat ≤ 255 ∧ decode (framed (UInt8.ofNat tag.toNat) (serialize (.list fields))) = .ok (some m, [])) ∧
  ((∀ m : Message, fromRlpItem (.list (toRlpItem tag :: fields)) ≠ .ok m) →
    (∃ error, (fromRlpItem (.list (toRlpItem tag :: fields)) : Outcome RlpError Message) = .err error) ∧
    (tag.toNat ≤ 255 →
      ∃ error left, decode (framed (UInt8.ofNat tag.toNat) (serialize (.list fields))) = .err (error, left)))

/-- Both decoders end alike on the low byte of the tag. -/
theorem decoders_low_byte (tag : U64) {fields : List RlpItem} (fits : 1 + (serialize (.list fields)).length < 2 ^ 32) :
    (∃ m : Message, decodeFields (UInt8.ofNat tag.toNat) fields = .ok m ∧
      fromRlpItem (.list (toRlpItem tag :: fields)) = .ok m ∧
      decode (framed (UInt8.ofNat tag.toNat) (serialize (.list fields))) = .ok (some m, [])) ∨
    ∃ error failure refusal, decodeFields (UInt8.ofNat tag.toNat) fields = .err failure ∧
      (fromRlpItem (.list (toRlpItem tag :: fields)) : Outcome RlpError Message) = .err error ∧
      decode (framed (UInt8.ofNat tag.toNat) (serialize (.list fields))) = .err (refusal, []) := by
  have byItem : (fromRlpItem (.list (toRlpItem tag :: fields)) : Outcome RlpError Message) =
      decodeMessage (UInt8.ofNat tag.toNat) (toRlpItem tag :: fields) := by
    rw [fromRlpItem_message, RlpLawful.roundTrip, Outcome.ok_bind]
  rw [← List.append_nil (serialize (.list fields))] at fits
  have byFrame := decode_framed_fields (UInt8.ofNat tag.toNat) fits
  rw [List.append_nil] at byFrame
  rw [byItem, byFrame]
  cases read : decodeFields (UInt8.ofNat tag.toNat) fields with
  | ok m => exact .inl ⟨m, rfl, decodeFields_eq_ok_iff.mp read, rfl⟩
  | err failure =>
    cases shifted : decodeMessage (UInt8.ofNat tag.toNat) (toRlpItem tag :: fields) with
    | ok m =>
      rw [← decodeFields_eq_ok_iff, read] at shifted
      cases shifted
    | err error => exact .inr ⟨error, failure, _, rfl, rfl, rfl⟩
    | panic => exact (decodeMessage_ne_panic _ _ shifted).elim
  | panic => exact (decodeFields_ne_panic _ _ read).elim

/-- The decoder of items truncates its tag to a byte, so the two agree on a larger tag only if its low
byte is no tag or does not belong to the fields. -/
theorem decoders_agree_iff (tag : U64) (fields : List RlpItem)
    (fits : 1 + (serialize (.list fields)).length < 2 ^ 32) :
    DecodersAgree tag fields ↔ tag.toNat ≤ 255 ∨ ¬ WellTyped (UInt8.ofNat tag.toNat) fields := by
  rw [← decodeFields_iff]
  rcases decoders_low_byte tag fits with ⟨m, read, byItem, byFrame⟩ | ⟨error, failure, refusal, read, byItem, byFrame⟩
  · constructor
    · intro agree
      exact .inl ((agree.1 m).mp byItem).1
    · rintro (isByte | untyped)
      · refine ⟨fun other => ?_, fun never => (never m byItem).elim⟩
        rw [byItem, byFrame]
        simp [isByte]
      · exact (untyped ⟨m, read⟩).elim
  · refine iff_of_true ⟨fun other => ?_, fun _ => ⟨⟨error, byItem⟩, fun _ => ⟨refusal, [], byFrame⟩⟩⟩ (.inr ?_)
    · rw [byItem, byFrame]
      simp
    · rw [read]
      simp

/-- A tag that is a byte, with the text of a disconnect, and a larger one whose low byte is that tag, without it. -/
theorem decoders_agree_iff_disconnect : DecodersAgree 0x0a [.bytes [98, 121, 101]] ∧ DecodersAgree 0x10a [] := by
  refine ⟨(decoders_agree_iff 0x0a [.bytes [98, 121, 101]] (by decide +kernel)).mpr (.inl (by decide)), ?_⟩
  refine (decoders_agree_iff 0x10a [] (by decide +kernel)).mpr (.inr ?_)
  rintro ⟨kinds, found, typed⟩
  cases found
  cases typed

/-- The tag 256 is read as a ping. -/
theorem decoders_disagree_256 : fromRlpItem (.list [toRlpItem (256 : U64)]) = .ok Message.ping ∧
    ¬ DecodersAgree 256 [] := by
  have read : fromRlpItem (.list [toRlpItem (256 : U64)]) = .ok Message.ping := by decide +kernel
  refine ⟨read, fun agree => ?_⟩
  have isByte := ((agree.1 .ping).mp read).1
  exact absurd isByte (by decide)

end Agreement

end MiniEthNode.EthCodec
