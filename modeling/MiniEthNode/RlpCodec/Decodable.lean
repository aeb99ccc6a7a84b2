import MiniEthNode.RlpCodec.Traits

namespace MiniEthNode
open Rust Rlp

class RlpDecodable (α : Type) where
  fromRlpItem : RlpItem → Outcome RlpError α

export RlpDecodable (fromRlpItem)

/-- The decoders of `u64` and `u128` over the number of bytes. -/
def integerFromRlpItem (size : Nat) : RlpItem → Outcome RlpError Nat
  | .bytes x =>
    if x.length > size then .err (.invalidLength x.length) else fromBeBytes size x
  | .list _ => .err (.unexpectedType 0xc0)

instance : RlpDecodable U64 where
  fromRlpItem item := do
    let value ← integerFromRlpItem 8 item
    .ok (BitVec.ofNat 64 value)

instance : RlpDecodable U128 where
  fromRlpItem item := do
    let value ← integerFromRlpItem 16 item
    .ok (BitVec.ofNat 128 value)

instance : RlpDecodable Bytes where
  fromRlpItem
    | .bytes x => .ok x
    | .list _ => .err (.unexpectedType 0xc0)

/-- The decoders of `Address`, `B256` and `Bloom`. -/
instance (size : Nat) : RlpDecodable (FixedBytes size) where
  fromRlpItem
    | .bytes x => (FixedBytes.tryFrom x).mapErr fun _ => .invalidLength x.length
    | .list _ => .err (.unexpectedType 0xc0)

/-- `&x[i]`, decoded. -/
def fieldAt {α : Type} [RlpDecodable α] (x : List RlpItem) (i : Nat) : Outcome RlpError α := do
  let item ← index x i
  fromRlpItem item

/-- A list with a fixed number of fields. -/
def fieldsOf (count : Nat) : RlpItem → Outcome RlpError (List RlpItem)
  | .bytes _ => .err (.unexpectedType 0x80)
  | .list x => if x.length ≠ count then .err (.invalidLength x.length) else .ok x

/-- The loops that decode one item after the other and stop at the first error. -/
def decodeAll {α : Type} [RlpDecodable α] : List RlpItem → Outcome RlpError (List α)
  | [] => .ok []
  | item :: rest => do
    let decoded ← fromRlpItem item
    let others ← decodeAll rest
    .ok (decoded :: others)

def decodeListOf {α : Type} [RlpDecodable α] : RlpItem → Outcome RlpError (List α)
  | .bytes _ => .err (.unexpectedType 0x80)
  | .list x => decodeAll x

/-- `&x[i]`, decoded as a list. -/
def listAt {α : Type} [RlpDecodable α] (x : List RlpItem) (i : Nat) : Outcome RlpError (List α) := do
  let item ← index x i
  decodeListOf item

instance : RlpDecodable AccessListItem where
  fromRlpItem item := do
    let x ← fieldsOf 2 item
    let address ← fieldAt x 0
    let storageKeys ← listAt x 1
    .ok ⟨address, storageKeys⟩

def decodeTo : RlpItem → Outcome RlpError (Option Address)
  | .bytes b =>
    if b.isEmpty then .ok none
    else do
      let address ← fromRlpItem (.bytes b)
      .ok (some address)
  | .list _ => .err (.unexpectedType 0xc0)

/-- `decode_to(&x[i])`. -/
def toAt (x : List RlpItem) (i : Nat) : Outcome RlpError (Option Address) := do
  let item ← index x i
  decodeTo item

/-- The arm of `Transaction::from_rlp_item` for the tag 0. -/
def decodeLegacy (x : List RlpItem) : Outcome RlpError Transaction :=
  if x.length ≠ 7 then .err (.invalidLength x.length)
  else do
    let nonce ← fieldAt x 1
    let gasLimit ← fieldAt x 2
    let toAddress ← toAt x 3
    let value ← fieldAt x 4
    let data ← fieldAt x 5
    let gasPrice ← fieldAt x 6
    .ok (.legacy nonce gasPrice gasLimit toAddress value data)

/-- The arm for the tag 2. -/
def decodeEip1559 (x : List RlpItem) : Outcome RlpError Transaction :=
  if x.length ≠ 9 then .err (.invalidLength x.length)
  else do
    let nonce ← fieldAt x 1
    let gasLimit ← fieldAt x 2
    let toAddress ← toAt x 3
    let value ← fieldAt x 4
    let data ← fieldAt x 5
    let maxFeePerGas ← fieldAt x 6
    let maxPriorityFeePerGas ← fieldAt x 7
    let accessList ← listAt x 8
    .ok (.eip1559 nonce maxPriorityFeePerGas maxFeePerGas gasLimit toAddress value data accessList)

/-- The arm for the tag 3. -/
def decodeEip4844 (x : List RlpItem) : Outcome RlpError Transaction :=
  if x.length ≠ 11 then .err (.invalidLength x.length)
  else do
    let nonce ← fieldAt x 1
    let gasLimit ← fieldAt x 2
    let toAddress ← toAt x 3
    let value ← fieldAt x 4
    let data ← fieldAt x 5
    let maxFeePerGas ← fieldAt x 6
    let maxPriorityFeePerGas ← fieldAt x 7
    let accessList ← listAt x 8
    let maxFeePerBlobGas ← fieldAt x 9
    let blobVersionedHashes ← listAt x 10
    .ok (.eip4844 nonce maxPriorityFeePerGas maxFeePerGas maxFeePerBlobGas gasLimit toAddress value data accessList
      blobVersionedHashes)

/-- The `match` on the tag. -/
def decodeTagged (x : List RlpItem) (tag : U64) : Outcome RlpError Transaction :=
  if tag = 0 then decodeLegacy x
  else if tag = 2 then decodeEip1559 x
  else if tag = 3 then decodeEip4844 x
  else .err (.unexpectedType 0xff)

instance : RlpDecodable Transaction where
  fromRlpItem
    | .bytes _ => .err (.unexpectedType 0x80)
    | .list x =>
      if x.isEmpty then .err (.invalidLength 0)
      else do
        let tag ← fieldAt x 0
        decodeTagged x tag

instance : RlpDecodable Header where
  fromRlpItem item := do
    let x ← fieldsOf 8 item
    let parentHash ← fieldAt x 0
    let beneficiary ← fieldAt x 1
    let stateRoot ← fieldAt x 2
    let transactionsRoot ← fieldAt x 3
    let gasLimit ← fieldAt x 4
    let gasUsed ← fieldAt x 5
    let timestamp ← fieldAt x 6
    let number ← fieldAt x 7
    .ok ⟨parentHash, beneficiary, stateRoot, transactionsRoot, gasLimit, gasUsed, timestamp, number⟩

instance : RlpDecodable SignedTransaction where
  fromRlpItem item := do
    let x ← fieldsOf 4 item
    let transaction ← fieldAt x 0
    let v ← fieldAt x 1
    let r ← fieldAt x 2
    let s ← fieldAt x 3
    .ok ⟨transaction, v, r, s⟩

instance : RlpDecodable Block where
  fromRlpItem item := do
    let x ← fieldsOf 2 item
    let header ← fieldAt x 0
    let transactions ← listAt x 1
    .ok ⟨header, transactions⟩

/-- All three fields are read from the first position. -/
instance : RlpDecodable Account where
  fromRlpItem item := do
    let x ← fieldsOf 3 item
    let balance ← fieldAt x 0
    let nonce ← fieldAt x 0
    let codeHash ← fieldAt x 0
    .ok ⟨balance, nonce, codeHash⟩

/-- A type whose values come back from their items, and whose decoder ends on every item. -/
class RlpLawful (α : Type) [RlpEncodable α] [RlpDecodable α] : Prop where
  roundTrip : ∀ a : α, fromRlpItem (toRlpItem a) = .ok a
  total : ∀ item : RlpItem, (fromRlpItem item : Outcome RlpError α) ≠ .panic

theorem toRlpItem_inj {α : Type} [RlpEncodable α] [RlpDecodable α] [RlpLawful α] {a b : α}
    (same : toRlpItem a = toRlpItem b) : a = b := by
  have read := RlpLawful.roundTrip a
  rw [same, RlpLawful.roundTrip, Outcome.ok.injEq] at read
  exact read.symm

theorem map_toRlpItem_inj {α : Type} [RlpEncodable α] [RlpDecodable α] [RlpLawful α] {xs ys : List α}
    (same : xs.map toRlpItem = ys.map toRlpItem) : xs = ys :=
  List.map_injective_iff.mpr (fun _ _ => toRlpItem_inj) same

section Fields
variable {α : Type} [RlpEncodable α] [RlpDecodable α] [RlpLawful α]

/-- A field that is there is read without a panic, and the decoder goes on with what it got. -/
theorem fieldAt_then {β : Type} {x : List RlpItem} {i : Nat} {next : α → Outcome RlpError β} (inside : i < x.length)
    (later : ∀ a, next a ≠ .panic) : (fieldAt x i >>= next) ≠ .panic := by
  refine Outcome.bind_ne_panic ?_ fun a _ => later a
  rw [fieldAt, index_ok inside, Outcome.ok_bind]
  exact RlpLawful.total _

theorem decodeAll_ne_panic (items : List RlpItem) : (decodeAll items : Outcome RlpError (List α)) ≠ .panic := by
  induction items with
  | nil => simp [decodeAll]
  | cons item rest ih =>
    exact Outcome.bind_ne_panic (RlpLawful.total item) fun _ _ => Outcome.bind_ne_panic ih fun _ _ => by simp

theorem decodeListOf_ne_panic (item : RlpItem) : (decodeListOf item : Outcome RlpError (List α)) ≠ .panic := by
  cases item with
  | bytes x => simp [decodeListOf]
  | list x => exact decodeAll_ne_panic x

theorem listAt_then {β : Type} {x : List RlpItem} {i : Nat} {next : List α → Outcome RlpError β}
    (inside : i < x.length) (later : ∀ a, next a ≠ .panic) : (listAt x i >>= next) ≠ .panic := by
  refine Outcome.bind_ne_panic ?_ fun a _ => later a
  rw [listAt, index_ok inside, Outcome.ok_bind]
  exact decodeListOf_ne_panic _

theorem decodeAll_map (values : List α) : decodeAll (values.map toRlpItem) = .ok values := by
  induction values with
  | nil => rfl
  | cons value rest ih => rw [List.map_cons, decodeAll, RlpLawful.roundTrip, Outcome.ok_bind, ih, Outcome.ok_bind]

omit [RlpEncodable α] [RlpLawful α] in
theorem fieldAt_of_item {x : List RlpItem} {i : Nat} {item : RlpItem} (here : x[i]? = some item) :
    (fieldAt x i : Outcome RlpError α) = fromRlpItem item := by
  rw [fieldAt, index, here, Outcome.ok_bind]

/-- A field in its place is read back, and the decoder goes on with it. -/
theorem fieldAt_ok {x : List RlpItem} {i : Nat} {a : α} (here : x[i]? = some (toRlpItem a)) :
    fieldAt x i = .ok a :=
  (fieldAt_of_item here).trans (RlpLawful.roundTrip a)

theorem fieldAt_bind {β : Type} {x : List RlpItem} {i : Nat} {a : α} {next : α → Outcome RlpError β} {b : β}
    (here : x[i]? = some (toRlpItem a)) (later : next a = .ok b) : (fieldAt x i >>= next) = .ok b :=
  Outcome.bind_eq_ok.mpr ⟨a, fieldAt_ok here, later⟩

theorem listAt_bind {β : Type} {x : List RlpItem} {i : Nat} {values : List α}
    {next : List α → Outcome RlpError β} {b : β} (here : x[i]? = some (.list (values.map toRlpItem)))
    (later : next values = .ok b) : (listAt x i >>= next) = .ok b := by
  rw [listAt, index, here]
  exact Outcome.bind_eq_ok.mpr ⟨values, decodeAll_map values, later⟩

end Fields

/-- A decoder that goes on has as many fields as it asked for. -/
theorem fieldsOf_then {β : Type} {count : Nat} {next : List RlpItem → Outcome RlpError β}
    (later : ∀ x, x.length = count → next x ≠ .panic) (item : RlpItem) : (fieldsOf count item >>= next) ≠ .panic := by
  cases item with
  | bytes b => simp [fieldsOf]
  | list y =>
    rw [fieldsOf]
    split
    · simp
    · rename_i same
      exact later y (not_not.mp same)

theorem fieldsOf_bind {β : Type} {count : Nat} {x : List RlpItem} {next : List RlpItem → Outcome RlpError β} {b : β}
    (length : x.length = count) (later : next x = .ok b) : (fieldsOf count (.list x) >>= next) = .ok b := by
  rw [fieldsOf, if_neg (not_not.mpr length)]
  exact later

section Primitive

theorem strippedItem_eq (bytes : Bytes) : strippedItem bytes = .bytes (bytes.dropWhile (· == 0)) := by
  rw [strippedItem, drop_findIdx?_getD]

theorem integerFromRlpItem_strippedItem (size : Nat) {value : Nat} (small : value < 256 ^ size) :
    integerFromRlpItem size (strippedItem (toBeBytes size value)) = .ok value := by
  have shorter := (List.dropWhile_sublist (· == 0) (l := toBeBytes size value)).length_le
  rw [toBeBytes_length] at shorter
  rw [strippedItem_eq, integerFromRlpItem, if_neg (Nat.not_lt.mpr shorter), fromBeBytes_ok shorter,
    beValue_dropWhile_zero, beValue_toBeBytes, Nat.mod_eq_of_lt small]

theorem integerFromRlpItem_ne_panic (size : Nat) (item : RlpItem) : integerFromRlpItem size item ≠ .panic := by
  cases item with
  | list items => simp [integerFromRlpItem]
  | bytes x =>
    rw [integerFromRlpItem]
    split
    · simp
    · rename_i fits
      rw [fromBeBytes_ok (Nat.not_lt.mp fits)]
      simp

instance : RlpLawful U64 where
  roundTrip a := by
    have value := integerFromRlpItem_strippedItem 8 (a.isLt.trans_eq (by norm_num))
    exact Outcome.bind_eq_ok.mpr ⟨_, value, by rw [BitVec.ofNat_toNat, BitVec.setWidth_eq]⟩
  total item := Outcome.bind_ne_panic (integerFromRlpItem_ne_panic 8 item) fun _ _ => by simp

instance : RlpLawful U128 where
  roundTrip a := by
    have value := integerFromRlpItem_strippedItem 16 (a.isLt.trans_eq (by norm_num))
    exact Outcome.bind_eq_ok.mpr ⟨_, value, by rw [BitVec.ofNat_toNat, BitVec.setWidth_eq]⟩
  total item := Outcome.bind_ne_panic (integerFromRlpItem_ne_panic 16 item) fun _ _ => by simp

instance : RlpLawful Bytes where
  roundTrip _ := rfl
  total item := by cases item <;> simp [fromRlpItem]

instance (size : Nat) : RlpLawful (FixedBytes size) where
  roundTrip a := Outcome.mapErr_eq_ok.mpr a.tryFrom_bytes
  total item := by
    cases item with
    | list items => simp [fromRlpItem]
    | bytes x => exact Outcome.mapErr_ne_panic (FixedBytes.tryFrom_ne_panic x)

theorem toAt_then {β : Type} {x : List RlpItem} {i : Nat} {next : Option Address → Outcome RlpError β}
    (inside : i < x.length) (later : ∀ a, next a ≠ .panic) : (toAt x i >>= next) ≠ .panic := by
  refine Outcome.bind_ne_panic ?_ fun a _ => later a
  rw [toAt, index_ok inside, Outcome.ok_bind]
  cases x.get ⟨i, inside⟩ with
  | list items => simp [decodeTo]
  | bytes b =>
    rw [decodeTo]
    split
    · simp
    · exact Outcome.bind_ne_panic (RlpLawful.total _) fun _ _ => by simp

/-- An address is never empty, so the empty string stands for no recipient alone. -/
theorem decodeTo_toItem (toAddress : Option Address) : decodeTo (toItem toAddress) = .ok toAddress := by
  cases toAddress with
  | none => rfl
  | some address =>
    have nonempty : address.bytes ≠ [] := List.ne_nil_of_length_pos (by rw [address.length_eq]; decide)
    have read := RlpLawful.roundTrip address
    change decodeTo (.bytes address.bytes) = _
    rw [decodeTo, if_neg (by simpa using nonempty)]
    exact Outcome.bind_eq_ok.mpr ⟨address, read, rfl⟩

theorem toAt_bind {β : Type} {x : List RlpItem} {i : Nat} {toAddress : Option Address}
    {next : Option Address → Outcome RlpError β} {b : β} (here : x[i]? = some (toItem toAddress))
    (later : next toAddress = .ok b) : (toAt x i >>= next) = .ok b := by
  rw [toAt, index, here]
  exact Outcome.bind_eq_ok.mpr ⟨toAddress, decodeTo_toItem toAddress, later⟩

end Primitive

section Compound

instance : RlpLawful AccessListItem where
  roundTrip item := fieldsOf_bind rfl <| fieldAt_bind rfl <| listAt_bind rfl rfl
  total := fieldsOf_then fun x length => fieldAt_then (by omega) fun _ => listAt_then (by omega) fun _ => by simp

instance : RlpLawful Header where
  roundTrip header := fieldsOf_bind rfl <| fieldAt_bind rfl <| fieldAt_bind rfl <| fieldAt_bind rfl <|
    fieldAt_bind rfl <| fieldAt_bind rfl <| fieldAt_bind rfl <| fieldAt_bind rfl <| fieldAt_bind rfl rfl
  total := by
    refine fieldsOf_then fun x length => ?_
    iterate 8 refine fieldAt_then (by omega) fun _ => ?_
    simp

/-- The fields that follow the tag in every transaction. -/
theorem commonFields_then {x : List RlpItem}
    {next : U64 → U64 → Option Address → U128 → Bytes → Outcome RlpError Transaction} (inside : 5 < x.length)
    (later : ∀ nonce gasLimit toAddress value data, next nonce gasLimit toAddress value data ≠ .panic) :
    (do
      let nonce ← fieldAt x 1
      let gasLimit ← fieldAt x 2
      let toAddress ← toAt x 3
      let value ← fieldAt x 4
      let data ← fieldAt x 5
      next nonce gasLimit toAddress value data) ≠ .panic := by
  refine fieldAt_then (by omega) fun nonce => fieldAt_then (by omega) fun gasLimit => ?_
  refine toAt_then (by omega) fun toAddress => ?_
  exact fieldAt_then (by omega) fun value => fieldAt_then inside fun data => later _ _ _ _ _

theorem decodeLegacy_ne_panic (x : List RlpItem) : decodeLegacy x ≠ .panic := by
  rw [decodeLegacy]
  split
  · simp
  · rename_i length
    exact commonFields_then (by omega) fun _ _ _ _ _ => fieldAt_then (by omega) fun _ => by simp

theorem decodeEip1559_ne_panic (x : List RlpItem) : decodeEip1559 x ≠ .panic := by
  rw [decodeEip1559]
  split
  · simp
  · rename_i length
    refine commonFields_then (by omega) fun _ _ _ _ _ => fieldAt_then (by omega) fun _ => ?_
    exact fieldAt_then (by omega) fun _ => listAt_then (by omega) fun _ => by simp

theorem decodeEip4844_ne_panic (x : List RlpItem) : decodeEip4844 x ≠ .panic := by
  rw [decodeEip4844]
  split
  · simp
  · rename_i length
    refine commonFields_then (by omega) fun _ _ _ _ _ => fieldAt_then (by omega) fun _ => ?_
    refine fieldAt_then (by omega) fun _ => listAt_then (by omega) fun _ => ?_
    exact fieldAt_then (by omega) fun _ => listAt_then (by omega) fun _ => by simp

theorem fromRlpItem_transaction {x : List RlpItem} (nonempty : x ≠ []) :
    (fromRlpItem (.list x) : Outcome RlpError Transaction) = fieldAt x 0 >>= decodeTagged x := by
  change (if x.isEmpty then _ else _) = _
  rw [if_neg (by simpa using nonempty)]

instance : RlpLawful Transaction where
  roundTrip tx := by
    cases tx with
    | legacy nonce gasPrice gasLimit toAddress value data =>
      refine (fromRlpItem_transaction (by simp)).trans (fieldAt_bind (a := (0 : U64)) rfl ?_)
      rw [decodeTagged, if_pos rfl, decodeLegacy, if_neg (by simp)]
      exact fieldAt_bind rfl <| fieldAt_bind rfl <| toAt_bind rfl <| fieldAt_bind rfl <| fieldAt_bind rfl <|
        fieldAt_bind rfl rfl
    | eip1559 nonce maxPriorityFeePerGas maxFeePerGas gasLimit toAddress value data accessList =>
      refine (fromRlpItem_transaction (by simp)).trans (fieldAt_bind (a := (2 : U64)) rfl ?_)
      rw [decodeTagged, if_neg (by decide), if_pos rfl, decodeEip1559, if_neg (by simp)]
      exact fieldAt_bind rfl <| fieldAt_bind rfl <| toAt_bind rfl <| fieldAt_bind rfl <| fieldAt_bind rfl <|
        fieldAt_bind rfl <| fieldAt_bind rfl <| listAt_bind rfl rfl
    | eip4844 nonce maxPriorityFeePerGas maxFeePerGas maxFeePerBlobGas gasLimit toAddress value data accessList
        blobVersionedHashes =>
      refine (fromRlpItem_transaction (by simp)).trans (fieldAt_bind (a := (3 : U64)) rfl ?_)
      rw [decodeTagged, if_neg (by decide), if_neg (by decide), if_pos rfl, decodeEip4844, if_neg (by simp)]
      exact fieldAt_bind rfl <| fieldAt_bind rfl <| toAt_bind rfl <| fieldAt_bind rfl <| fieldAt_bind rfl <|
        fieldAt_bind rfl <| fieldAt_bind rfl <| listAt_bind rfl <| fieldAt_bind rfl <| listAt_bind rfl rfl
  total item := by
    cases item with
    | bytes b => simp [fromRlpItem]
    | list x =>
      by_cases nonempty : x = []
      · subst nonempty
        simp [fromRlpItem]
      · rw [fromRlpItem_transaction nonempty]
        refine fieldAt_then (List.length_pos_iff.mpr nonempty) fun tag => ?_
        unfold decodeTagged
        split
        · exact decodeLegacy_ne_panic x
        · split
          · exact decodeEip1559_ne_panic x
          · split
            · exact decodeEip4844_ne_panic x
            · simp

instance : RlpLawful SignedTransaction where
  roundTrip signedTx := fieldsOf_bind rfl <| fieldAt_bind rfl <| fieldAt_bind rfl <| fieldAt_bind rfl <|
    fieldAt_bind rfl rfl
  total := by
    refine fieldsOf_then fun x length => ?_
    iterate 4 refine fieldAt_then (by omega) fun _ => ?_
    simp

instance : RlpLawful Block where
  roundTrip block := fieldsOf_bind rfl <| fieldAt_bind rfl <| listAt_bind rfl rfl
  total := fieldsOf_then fun x length => fieldAt_then (by omega) fun _ => listAt_then (by omega) fun _ => by simp

end Compound

end MiniEthNode
