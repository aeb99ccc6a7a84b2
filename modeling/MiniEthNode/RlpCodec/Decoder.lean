import MiniEthNode.Format.Grammar
import MiniEthNode.RlpCodec.Encoder

namespace MiniEthNode
open Rust Rlp

def decodeLength (slice : Bytes) (lenOfLen : Nat) : Outcome RlpError Nat :=
  if lenOfLen = 0 then .err (.invalidLength 0)
  else if lenOfLen > slice.length then .err (.inputTooShort lenOfLen slice.length)
  else do
    let front ← sliceTo slice lenOfLen
    fromBeBytes 8 front

/-- The arms of `decode` for a length up to 55, which the first byte tells over `base`: the payload
and what follows it. -/
def shortPayload (base : UInt8) (input : Bytes) : Outcome RlpError (Bytes × Bytes) := do
  let first ← index input 0
  let len ← byteSub first base
  let available ← usizeSub input.length 1
  if len > available then .err (.inputTooShort len available)
  else do
    let stop ← usizeAdd 1 len
    let payload ← slice input 1 stop
    let rest ← sliceFrom input stop
    .ok (payload, rest)

/-- The arms of `decode` for a longer payload: the first byte tells over `base` how many bytes spell
the length. -/
def longPayload (base : UInt8) (input : Bytes) : Outcome RlpError (Bytes × Bytes) := do
  let first ← index input 0
  let lenOfLen ← byteSub first base
  let afterFirst ← sliceFrom input 1
  let payloadLen ← decodeLength afterFirst lenOfLen
  let start ← usizeAdd 1 lenOfLen
  let remainingAfterLen ← sliceFrom input start
  if payloadLen > remainingAfterLen.length then .err (.inputTooShort payloadLen remainingAfterLen.length)
  else do
    let payload ← sliceTo remainingAfterLen payloadLen
    let rest ← sliceFrom remainingAfterLen payloadLen
    .ok (payload, rest)

mutual
/-- `decode`, where the calls nested in each other and the rounds of a loop use up fuel. -/
def decodeWith : Nat → Bytes → Outcome RlpError (RlpItem × Bytes)
  | 0, _ => .panic
  | fuel + 1, input =>
    if input.isEmpty then .err (.inputTooShort 1 0)
    else do
      let first ← index input 0
      if first < 0x80 then do
        let rest ← sliceFrom input 1
        .ok (.bytes [first], rest)
      else if first < 0xb8 then do
        let (data, rest) ← shortPayload 0x80 input
        .ok (.bytes data, rest)
      else if first < 0xc0 then do
        let (data, rest) ← longPayload 0xb7 input
        .ok (.bytes data, rest)
      else if first < 0xf8 then do
        let (payloadSlice, rest) ← shortPayload 0xc0 input
        let decoded ← decodeItems fuel payloadSlice []
        .ok (.list decoded, rest)
      else do
        let (payloadSlice, rest) ← longPayload 0xf7 input
        let decoded ← decodeItems fuel payloadSlice []
        .ok (.list decoded, rest)

/-- The loop of `decode` over the payload of a list. -/
def decodeItems : Nat → Bytes → List RlpItem → Outcome RlpError (List RlpItem)
  | _, [], decoded => .ok decoded
  | 0, _ :: _, _ => .panic
  | fuel + 1, byte :: bytes, decoded => do
    let (item, remaining) ← decodeWith fuel (byte :: bytes)
    decodeItems fuel remaining (decoded ++ [item])
end

/-- Two units of fuel for every byte are enough: each call and each round of a loop reads one. -/
def decode (input : Bytes) : Outcome RlpError (RlpItem × Bytes) := decodeWith (2 * input.length + 1) input

theorem shortPayload_cons {base first : UInt8} (tail : Bytes) (within : base ≤ first) :
    shortPayload base (first :: tail) =
      if tail.length < first.toNat - base.toNat then
        .err (.inputTooShort (first.toNat - base.toNat) tail.length)
      else .ok (tail.take (first.toNat - base.toNat), tail.drop (first.toNat - base.toNat)) := by
  have byte : first.toNat < 256 := first.toNat_lt
  rw [shortPayload, index_ok (by simp), Outcome.ok_bind]
  simp only [List.get_eq_getElem, List.getElem_cons_zero]
  rw [byteSub_ok within, Outcome.ok_bind, usizeSub_ok (by simp), Outcome.ok_bind]
  simp only [List.length_cons, Nat.add_sub_cancel, gt_iff_lt]
  split
  · rfl
  · rename_i enough
    rw [usizeAdd_ok (by omega), Outcome.ok_bind, slice_ok (by omega) (by simp; omega), Outcome.ok_bind,
      sliceFrom_ok (by simp; omega), Outcome.ok_bind]
    simp [Nat.add_comm 1]

theorem decodeLength_eq (slice : Bytes) {lenOfLen : Nat} (positive : 0 < lenOfLen) (atMost : lenOfLen ≤ 8) :
    decodeLength slice lenOfLen =
      if slice.length < lenOfLen then .err (.inputTooShort lenOfLen slice.length)
      else .ok (beValue (slice.take lenOfLen)) := by
  rw [decodeLength, if_neg (by omega)]
  simp only [gt_iff_lt]
  split
  · rfl
  · rename_i enough
    rw [sliceTo_ok (by omega), Outcome.ok_bind, fromBeBytes_ok (by simp; omega)]

theorem longPayload_cons {base first : UInt8} (tail : Bytes) (above : base < first)
    (atMost : first.toNat - base.toNat ≤ 8) :
    longPayload base (first :: tail) =
      if tail.length < first.toNat - base.toNat then
        .err (.inputTooShort (first.toNat - base.toNat) tail.length)
      else if (tail.drop (first.toNat - base.toNat)).length < beValue (tail.take (first.toNat - base.toNat)) then
        .err (.inputTooShort (beValue (tail.take (first.toNat - base.toNat)))
          (tail.drop (first.toNat - base.toNat)).length)
      else .ok ((tail.drop (first.toNat - base.toNat)).take (beValue (tail.take (first.toNat - base.toNat))),
        (tail.drop (first.toNat - base.toNat)).drop (beValue (tail.take (first.toNat - base.toNat)))) := by
  have byte : first.toNat < 256 := first.toNat_lt
  have positive : 0 < first.toNat - base.toNat := Nat.sub_pos_of_lt above
  rw [longPayload, index_ok (by simp), Outcome.ok_bind]
  simp only [List.get_eq_getElem, List.getElem_cons_zero]
  rw [byteSub_ok (UInt8.le_of_lt above), Outcome.ok_bind, sliceFrom_ok (by simp), Outcome.ok_bind]
  simp only [List.drop_succ_cons, List.drop_zero]
  rw [decodeLength_eq tail positive atMost]
  generalize first.toNat - base.toNat = count at *
  split
  · rfl
  · rename_i enough
    rw [Outcome.ok_bind, usizeAdd_ok (by omega), Outcome.ok_bind, sliceFrom_ok (by simp; omega), Outcome.ok_bind,
      Nat.add_comm 1, List.drop_succ_cons]
    simp only [gt_iff_lt]
    split
    · rfl
    · rename_i whole
      rw [sliceTo_ok (by omega), Outcome.ok_bind, sliceFrom_ok (by omega), Outcome.ok_bind]

theorem decodeWith_cons (fuel : Nat) (first : UInt8) (tail : Bytes) :
    decodeWith (fuel + 1) (first :: tail) =
      (if first < 0x80 then .ok (.bytes [first], tail)
      else if first < 0xb8 then do
        let (data, rest) ← shortPayload 0x80 (first :: tail)
        .ok (.bytes data, rest)
      else if first < 0xc0 then do
        let (data, rest) ← longPayload 0xb7 (first :: tail)
        .ok (.bytes data, rest)
      else if first < 0xf8 then do
        let (payloadSlice, rest) ← shortPayload 0xc0 (first :: tail)
        let decoded ← decodeItems fuel payloadSlice []
        .ok (.list decoded, rest)
      else do
        let (payloadSlice, rest) ← longPayload 0xf7 (first :: tail)
        let decoded ← decodeItems fuel payloadSlice []
        .ok (.list decoded, rest)) := by
  rw [decodeWith, if_neg (by simp), index_ok (by simp), Outcome.ok_bind, sliceFrom_ok (by simp), Outcome.ok_bind]
  rfl

section Payloads

theorem shortPayload_eq_ok {base first : UInt8} {tail payload rest : Bytes} (within : base ≤ first) :
    shortPayload base (first :: tail) = .ok (payload, rest) ↔
      first.toNat = base.toNat + payload.length ∧ tail = payload ++ rest := by
  have below : base.toNat ≤ first.toNat := within
  rw [shortPayload_cons tail within]
  constructor
  · intro read
    split at read
    · cases read
    · rename_i enough
      cases read
      rw [List.length_take, List.take_append_drop]
      exact ⟨by omega, rfl⟩
  · rintro ⟨told, rfl⟩
    have count : first.toNat - base.toNat = payload.length := by omega
    rw [count, if_neg (by simp), List.take_left, List.drop_left]

theorem longPayload_eq_ok {base first : UInt8} {tail payload rest : Bytes} (above : base < first)
    (atMost : first.toNat - base.toNat ≤ 8) :
    longPayload base (first :: tail) = .ok (payload, rest) ↔
      ∃ digits : Bytes, first.toNat = base.toNat + digits.length ∧ beValue digits = payload.length ∧
        tail = digits ++ (payload ++ rest) := by
  have below : base.toNat < first.toNat := above
  rw [longPayload_cons tail above atMost]
  constructor
  · intro read
    split at read
    · cases read
    · rename_i enough
      split at read
      · cases read
      · rename_i whole
        cases read
        refine ⟨tail.take (first.toNat - base.toNat), ?_, ?_, ?_⟩
        · rw [List.length_take]
          omega
        · rw [List.length_take]
          omega
        · rw [List.take_append_drop, List.take_append_drop]
  · rintro ⟨digits, told, value, rfl⟩
    have count : first.toNat - base.toNat = digits.length := by omega
    rw [count, if_neg (by simp), List.take_left, List.drop_left, value, if_neg (by simp), List.take_left,
      List.drop_left]

/-- The first bytes of the long strings. -/
theorem longString_bounds {first : UInt8} (long : ¬ first < 0xb8) (string : first < 0xc0) :
    0xb7 < first ∧ first.toNat - (0xb7 : UInt8).toNat ≤ 8 := by
  rw [UInt8.lt_iff_toNat_lt] at long string ⊢
  simp only [UInt8.reduceToNat] at long string ⊢
  omega

/-- The first bytes of the long lists. -/
theorem longList_bounds {first : UInt8} (long : ¬ first < 0xf8) :
    0xf7 < first ∧ first.toNat - (0xf7 : UInt8).toNat ≤ 8 := by
  have byte : first.toNat < 256 := first.toNat_lt
  rw [UInt8.lt_iff_toNat_lt] at long ⊢
  simp only [UInt8.reduceToNat] at long ⊢
  omega

theorem shortPayload_frame (base : UInt8) {payload : Bytes} (rest : Bytes) (fits : base.toNat + payload.length < 256) :
    shortPayload base (UInt8.ofNat (base.toNat + payload.length) :: (payload ++ rest)) = .ok (payload, rest) := by
  have first := UInt8.toNat_ofNat_of_lt' fits
  have within : base ≤ UInt8.ofNat (base.toNat + payload.length) := by
    rw [UInt8.le_iff_toNat_le, first]
    omega
  exact (shortPayload_eq_ok within).mpr ⟨first, rfl⟩

theorem longPayload_frame (base : UInt8) {digits payload : Bytes} (rest : Bytes) (nonempty : digits ≠ [])
    (few : digits.length ≤ 8) (fits : base.toNat + digits.length < 256) (value : beValue digits = payload.length) :
    longPayload base (UInt8.ofNat (base.toNat + digits.length) :: (digits ++ (payload ++ rest))) =
      .ok (payload, rest) := by
  have first := UInt8.toNat_ofNat_of_lt' fits
  have positive := List.length_pos_iff.mpr nonempty
  have above : base < UInt8.ofNat (base.toNat + digits.length) := by
    rw [UInt8.lt_iff_toNat_lt, first]
    omega
  exact (longPayload_eq_ok above (by rw [first]; omega)).mpr ⟨digits, first, value, rfl⟩

theorem shortPayload_ne_panic {base first : UInt8} (tail : Bytes) (within : base ≤ first) :
    shortPayload base (first :: tail) ≠ .panic := by
  rw [shortPayload_cons tail within]
  split <;> simp

theorem longPayload_ne_panic {base first : UInt8} (tail : Bytes) (above : base < first)
    (atMost : first.toNat - base.toNat ≤ 8) : longPayload base (first :: tail) ≠ .panic := by
  rw [longPayload_cons tail above atMost]
  split
  · simp
  · split <;> simp

end Payloads

section Grammar

theorem ofNat_lt_iff {n : Nat} (small : n < 256) (byte : UInt8) : UInt8.ofNat n < byte ↔ n < byte.toNat := by
  rw [UInt8.lt_iff_toNat_lt, UInt8.toNat_ofNat_of_lt' small]

theorem ofNat_eq_of_toNat {byte : UInt8} {n : Nat} (same : byte.toNat = n) : byte = UInt8.ofNat n := by
  rw [← same, UInt8.ofNat_toNat]

/-- What a successful call has read. The calls nested in it read the payload of a list. -/
theorem decodeWith_cases {fuel : Nat} {input rest : Bytes} {item : RlpItem}
    (read : decodeWith (fuel + 1) input = .ok (item, rest)) :
    (∃ byte : UInt8, byte < 128 ∧ item = .bytes [byte] ∧ input = byte :: rest) ∨
    (∃ front data : Bytes, Announces 128 data.length front ∧ item = .bytes data ∧ input = front ++ (data ++ rest)) ∨
    ∃ (front payload : Bytes) (items : List RlpItem), Announces 192 payload.length front ∧
      decodeItems fuel payload [] = .ok items ∧ item = .list items ∧ input = front ++ (payload ++ rest) := by
  cases input with
  | nil => cases read
  | cons first tail =>
    have byte : first.toNat < 256 := first.toNat_lt
    rw [decodeWith_cons] at read
    split at read
    · rename_i low
      cases read
      exact .inl ⟨first, low, rfl, rfl⟩
    rename_i high
    split at read
    · rename_i short
      obtain ⟨⟨data, rest'⟩, payload, same⟩ := Outcome.bind_eq_ok.mp read
      cases same
      obtain ⟨told, rfl⟩ := (shortPayload_eq_ok (UInt8.not_lt.mp high)).mp payload
      rw [UInt8.lt_iff_toNat_lt] at short
      simp only [UInt8.reduceToNat] at told short
      refine .inr (.inl ⟨[first], data, ?_, rfl, rfl⟩)
      rw [ofNat_eq_of_toNat told]
      exact .told (by omega)
    rename_i long
    split at read
    · rename_i string
      obtain ⟨⟨data, rest'⟩, payload, same⟩ := Outcome.bind_eq_ok.mp read
      cases same
      obtain ⟨above, atMost⟩ := longString_bounds long string
      obtain ⟨digits, told, value, rfl⟩ := (longPayload_eq_ok above atMost).mp payload
      rw [UInt8.lt_iff_toNat_lt] at above
      simp only [UInt8.reduceToNat] at told above atMost
      refine .inr (.inl ⟨first :: digits, data, ?_, rfl, rfl⟩)
      rw [ofNat_eq_of_toNat told]
      exact .spelled value (List.ne_nil_of_length_pos (by omega)) (by omega)
    rename_i list
    split at read
    · rename_i short
      obtain ⟨⟨payload, rest'⟩, spelled, read⟩ := Outcome.bind_eq_ok.mp read
      obtain ⟨items, inside, same⟩ := Outcome.bind_eq_ok.mp read
      cases same
      obtain ⟨told, rfl⟩ := (shortPayload_eq_ok (UInt8.not_lt.mp list)).mp spelled
      rw [UInt8.lt_iff_toNat_lt] at short
      simp only [UInt8.reduceToNat] at told short
      refine .inr (.inr ⟨[first], payload, items, ?_, inside, rfl, rfl⟩)
      rw [ofNat_eq_of_toNat told]
      exact .told (by omega)
    · rename_i longer
      obtain ⟨⟨payload, rest'⟩, spelled, read⟩ := Outcome.bind_eq_ok.mp read
      obtain ⟨items, inside, same⟩ := Outcome.bind_eq_ok.mp read
      cases same
      obtain ⟨above, atMost⟩ := longList_bounds longer
      obtain ⟨digits, told, value, rfl⟩ := (longPayload_eq_ok above atMost).mp spelled
      rw [UInt8.lt_iff_toNat_lt] at above
      simp only [UInt8.reduceToNat] at told above atMost
      refine .inr (.inr ⟨first :: digits, payload, items, ?_, inside, rfl, rfl⟩)
      rw [ofNat_eq_of_toNat told]
      exact .spelled value (List.ne_nil_of_length_pos (by omega)) (by omega)

/-- Both functions together, by induction on the fuel: what is read is a spelling of the item, and
the payload of a list is cut into spellings of its items. -/
theorem decodeWith_spells (fuel : Nat) :
    (∀ (input : Bytes) (item : RlpItem) (rest : Bytes), decodeWith fuel input = .ok (item, rest) →
      ∃ front, Spells item front ∧ input = front ++ rest) ∧
    ∀ (payload : Bytes) (decoded items : List RlpItem), decodeItems fuel payload decoded = .ok items →
      ∃ parts : List (RlpItem × Bytes), items = decoded ++ parts.map Prod.fst ∧
        payload = parts.flatMap Prod.snd ∧ ∀ part ∈ parts, Spells part.1 part.2 := by
  induction fuel with
  | zero =>
    refine ⟨fun input item rest read => (by cases read), fun payload decoded items read => ?_⟩
    cases payload with
    | nil =>
      cases read
      exact ⟨[], by simp, rfl, by simp⟩
    | cons => cases read
  | succ fuel ih =>
    obtain ⟨decodes, loops⟩ := ih
    constructor
    · intro input item rest read
      rcases decodeWith_cases read with ⟨byte, low, rfl, rfl⟩ | ⟨front, data, announced, rfl, rfl⟩ |
        ⟨front, payload, items, announced, inside, rfl, rfl⟩
      · exact ⟨[byte], .byte low, rfl⟩
      · exact ⟨front ++ data, .string announced, (List.append_assoc ..).symm⟩
      · obtain ⟨parts, rfl, rfl, each⟩ := loops payload [] items inside
        exact ⟨front ++ parts.flatMap Prod.snd, .list announced each, (List.append_assoc ..).symm⟩
    · intro payload decoded items read
      cases payload with
      | nil =>
        cases read
        exact ⟨[], by simp, rfl, by simp⟩
      | cons byte bytes =>
        obtain ⟨⟨item, remaining⟩, first, read⟩ := Outcome.bind_eq_ok.mp read
        obtain ⟨front, spells, whole⟩ := decodes _ item remaining first
        obtain ⟨parts, rfl, rfl, each⟩ := loops remaining (decoded ++ [item]) items read
        refine ⟨(item, front) :: parts, by simp, whole, ?_⟩
        intro part member
        rcases List.mem_cons.mp member with rfl | later
        · exact spells
        · exact each part later

/-- An announced string is read as that string. -/
theorem decodeWith_string (fuel : Nat) {front data : Bytes} (rest : Bytes)
    (announced : Announces 128 data.length front) :
    decodeWith (fuel + 1) (front ++ (data ++ rest)) = .ok (.bytes data, rest) := by
  generalize same : data.length = length at announced
  cases announced with
  | told small =>
    subst same
    have first : 128 + data.length < 256 := by omega
    have payload := shortPayload_frame 0x80 rest first
    simp only [List.singleton_append, decodeWith_cons, ofNat_lt_iff first, UInt8.reduceToNat]
    rw [if_neg (by omega), if_pos (by omega)]
    exact Outcome.bind_eq_ok.mpr ⟨_, payload, rfl⟩
  | @spelled digits value nonempty few =>
    have positive := List.length_pos_iff.mpr nonempty
    have first : 128 + 55 + digits.length < 256 := by omega
    have payload := longPayload_frame 0xb7 rest nonempty few first (value.trans same.symm)
    simp only [List.cons_append, decodeWith_cons, ofNat_lt_iff first, UInt8.reduceToNat]
    rw [if_neg (by omega), if_neg (by omega), if_pos (by omega)]
    exact Outcome.bind_eq_ok.mpr ⟨_, payload, rfl⟩

/-- An announced payload is read as the list of its items. -/
theorem decodeWith_list {fuel : Nat} {front payload : Bytes} {items : List RlpItem} (rest : Bytes)
    (announced : Announces 192 payload.length front) (inside : decodeItems fuel payload [] = .ok items) :
    decodeWith (fuel + 1) (front ++ (payload ++ rest)) = .ok (.list items, rest) := by
  generalize same : payload.length = length at announced
  cases announced with
  | told small =>
    subst same
    have first : 192 + payload.length < 256 := by omega
    have spelled := shortPayload_frame 0xc0 rest first
    simp only [List.singleton_append, decodeWith_cons, ofNat_lt_iff first, UInt8.reduceToNat]
    rw [if_neg (by omega), if_neg (by omega), if_neg (by omega), if_pos (by omega)]
    exact Outcome.bind_eq_ok.mpr ⟨_, spelled, Outcome.bind_eq_ok.mpr ⟨_, inside, rfl⟩⟩
  | @spelled digits value nonempty few =>
    have positive := List.length_pos_iff.mpr nonempty
    have first : 192 + 55 + digits.length < 256 := by omega
    have spelled := longPayload_frame 0xf7 rest nonempty few first (value.trans same.symm)
    simp only [List.cons_append, decodeWith_cons, ofNat_lt_iff first, UInt8.reduceToNat]
    rw [if_neg (by omega), if_neg (by omega), if_neg (by omega), if_neg (by omega)]
    exact Outcome.bind_eq_ok.mpr ⟨_, spelled, Outcome.bind_eq_ok.mpr ⟨_, inside, rfl⟩⟩

/-- The loop over a payload whose parts are each read as an item. -/
theorem decodeItems_parts {parts : List (RlpItem × Bytes)} (each : ∀ part ∈ parts, Spells part.1 part.2)
    (reads : ∀ part ∈ parts, ∀ (fuel : Nat) (rest : Bytes), 2 * part.2.length ≤ fuel + 1 →
      decodeWith fuel (part.2 ++ rest) = .ok (part.1, rest))
    (fuel : Nat) (decoded : List RlpItem) (enough : 2 * (parts.flatMap Prod.snd).length ≤ fuel) :
    decodeItems fuel (parts.flatMap Prod.snd) decoded = .ok (decoded ++ parts.map Prod.fst) := by
  induction parts generalizing fuel decoded with
  | nil => simp [decodeItems]
  | cons part parts ih =>
    have nonempty := (each part List.mem_cons_self).ne_nil
    have positive := List.length_pos_iff.mpr nonempty
    rw [List.flatMap_cons, List.length_append] at enough
    obtain ⟨fuel, rfl⟩ : ∃ fuel', fuel = fuel' + 1 := ⟨fuel - 1, by omega⟩
    have first := reads part List.mem_cons_self fuel (parts.flatMap Prod.snd) (by omega)
    have later := ih (fun other member => each other (List.mem_cons_of_mem _ member))
      (fun other member => reads other (List.mem_cons_of_mem _ member)) fuel (decoded ++ [part.1]) (by omega)
    obtain ⟨byte, bytes, spelled⟩ := List.exists_cons_of_ne_nil
      (List.append_ne_nil_of_left_ne_nil nonempty (parts.flatMap Prod.snd))
    rw [spelled] at first
    rw [List.flatMap_cons, spelled, decodeItems, List.map_cons, List.append_cons]
    exact Outcome.bind_eq_ok.mpr ⟨_, first, later⟩

/-- The fuel is measured by the spelling, not by what follows it. -/
theorem decodeWith_of_spells {item : RlpItem} {front : Bytes} (spells : Spells item front) :
    ∀ (fuel : Nat) (rest : Bytes), 2 * front.length ≤ fuel + 1 → decodeWith fuel (front ++ rest) = .ok (item, rest) := by
  induction spells with
  | byte low =>
    intro fuel rest enough
    obtain ⟨fuel, rfl⟩ : ∃ fuel', fuel = fuel' + 1 := ⟨fuel - 1, by simp at enough; omega⟩
    rw [List.singleton_append, decodeWith_cons, if_pos low]
  | string announced =>
    intro fuel rest enough
    have nonempty := List.length_pos_iff.mpr announced.ne_nil
    rw [List.length_append] at enough
    obtain ⟨fuel, rfl⟩ : ∃ fuel', fuel = fuel' + 1 := ⟨fuel - 1, by omega⟩
    rw [List.append_assoc]
    exact decodeWith_string fuel rest announced
  | list announced inside ih =>
    intro fuel rest enough
    have nonempty := List.length_pos_iff.mpr announced.ne_nil
    rw [List.length_append] at enough
    obtain ⟨fuel, rfl⟩ : ∃ fuel', fuel = fuel' + 1 := ⟨fuel - 1, by omega⟩
    rw [List.append_assoc]
    exact decodeWith_list rest announced (decodeItems_parts inside ih fuel [] (by omega))

/-- The decoder takes an item off the front of its input exactly where a spelling of the item stands. -/
theorem decode_eq_ok_iff {input rest : Bytes} {item : RlpItem} :
    decode input = .ok (item, rest) ↔ ∃ front, Spells item front ∧ input = front ++ rest := by
  constructor
  · exact (decodeWith_spells _).1 input item rest
  · rintro ⟨front, spells, rfl⟩
    refine decodeWith_of_spells spells _ rest ?_
    rw [List.length_append]
    omega

end Grammar

section RoundTrip

theorem decode_serialize {x : RlpItem} (bound : (serialize x).length < 2 ^ 64) (rest : Bytes) :
    decode (serialize x ++ rest) = .ok (x, rest) :=
  decode_eq_ok_iff.mpr ⟨serialize x, spells_serialize x bound, rfl⟩

/-- Every item has an encoding, and in front of any input the encoding is read as the item. So no
encoding is the beginning of another, and different items have different encodings. -/
theorem decode_encode_append :
    (∀ x : RlpItem, ∃ bytes, encode x [] = .ok bytes ∧
      (bytes.length < 2 ^ 64 → ∀ t : Bytes, decode (bytes ++ t) = .ok (x, t))) ∧
    ∀ (x y : RlpItem) (bytes bytes' : Bytes), encode x [] = .ok bytes → encode y [] = .ok bytes' →
      bytes'.length < 2 ^ 64 → bytes <+: bytes' → x = y ∧ bytes = bytes' := by
  constructor
  · intro x
    refine ⟨serialize x, by rw [encode_eq, List.nil_append], fun bound t => decode_serialize bound t⟩
  · rintro x y bytes bytes' first second bound ⟨t, rfl⟩
    rw [encode_eq, List.nil_append, Outcome.ok.injEq] at first second
    subst first
    rw [List.length_append] at bound
    have read := decode_serialize (x := x) (by omega) t
    have whole := decode_serialize (x := y) (by rw [second, List.length_append]; omega) []
    rw [List.append_nil, second, read, Outcome.ok.injEq, Prod.mk.injEq] at whole
    rw [whole.2, List.append_nil]
    exact ⟨whole.1, rfl⟩

/-- A list of two strings in front of two more bytes. -/
theorem decode_encode_append_cat_dog :
    let x : RlpItem := .list [.bytes [99, 97, 116], .bytes [100, 111, 103]]
    encode x [] = .ok [0xc8, 0x83, 99, 97, 116, 0x83, 100, 111, 103] ∧
      decode [0xc8, 0x83, 99, 97, 116, 0x83, 100, 111, 103, 1, 2] = .ok (x, [1, 2]) := by
  intro x
  have spelled : encode x [] = .ok [0xc8, 0x83, 99, 97, 116, 0x83, 100, 111, 103] := rfl
  obtain ⟨bytes, encoded, read⟩ := decode_encode_append.1 x
  rw [spelled, Outcome.ok.injEq] at encoded
  subst encoded
  exact ⟨spelled, read (by decide) [1, 2]⟩

end RoundTrip

section Totality

/-- Both functions together, by induction on the fuel: a list leaves its first byte behind, and a
round of the loop at least one byte. -/
theorem decodeWith_total (fuel : Nat) :
    (∀ input : Bytes, 2 * input.length ≤ fuel + 1 → 0 < fuel → decodeWith fuel input ≠ .panic) ∧
      ∀ (payload : Bytes) (decoded : List RlpItem), 2 * payload.length ≤ fuel →
        decodeItems fuel payload decoded ≠ .panic := by
  induction fuel with
  | zero =>
    refine ⟨fun input enough positive => absurd positive (Nat.lt_irrefl 0), fun payload decoded enough => ?_⟩
    obtain rfl := List.length_eq_zero_iff.mp (by omega : payload.length = 0)
    simp [decodeItems]
  | succ fuel ih =>
    obtain ⟨decodes, loops⟩ := ih
    constructor
    · intro input enough _
      cases input with
      | nil => simp [decodeWith]
      | cons first tail =>
        have byte : first.toNat < 256 := first.toNat_lt
        rw [List.length_cons] at enough
        -- the payload of a list is shorter than the input
        have nested (payload rest : Bytes) (front : Bytes) (whole : tail = front ++ (payload ++ rest)) :
            (do let decoded ← decodeItems fuel payload []; .ok (.list decoded, rest) :
              Outcome RlpError (RlpItem × Bytes)) ≠ .panic := by
          refine Outcome.bind_ne_panic (loops payload [] ?_) fun _ _ => by simp
          rw [whole, List.length_append, List.length_append] at enough
          omega
        rw [decodeWith_cons]
        split
        · simp
        rename_i high
        split
        · exact Outcome.bind_ne_panic (shortPayload_ne_panic tail (UInt8.not_lt.mp high)) fun _ _ => by simp
        rename_i long
        split
        · rename_i string
          obtain ⟨above, atMost⟩ := longString_bounds long string
          exact Outcome.bind_ne_panic (longPayload_ne_panic tail above atMost) fun _ _ => by simp
        rename_i list
        split
        · have within := UInt8.not_lt.mp list
          refine Outcome.bind_ne_panic (shortPayload_ne_panic tail within) fun ⟨payload, rest⟩ read => ?_
          exact nested payload rest [] ((shortPayload_eq_ok within).mp read).2
        · rename_i longer
          obtain ⟨above, atMost⟩ := longList_bounds longer
          refine Outcome.bind_ne_panic (longPayload_ne_panic tail above atMost) fun ⟨payload, rest⟩ read => ?_
          obtain ⟨digits, _, _, whole⟩ := (longPayload_eq_ok above atMost).mp read
          exact nested payload rest digits whole
    · intro payload decoded enough
      cases payload with
      | nil => simp [decodeItems]
      | cons byte bytes =>
        rw [List.length_cons] at enough
        refine Outcome.bind_ne_panic (decodes (byte :: bytes) (by simp; omega) (by omega)) fun ⟨item, rest⟩ read => ?_
        obtain ⟨front, spells, whole⟩ := (decodeWith_spells fuel).1 _ item rest read
        refine loops rest (decoded ++ [item]) ?_
        have positive := List.length_pos_iff.mpr spells.ne_nil
        have length := congrArg List.length whole
        rw [List.length_cons, List.length_append] at length
        omega

theorem decode_ne_panic (input : Bytes) : decode input ≠ .panic :=
  (decodeWith_total _).1 input (by omega) (by omega)

end Totality

end MiniEthNode
