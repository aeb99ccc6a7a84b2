import MiniEthNode.Format.Rlp

namespace Rlp
open Rust

/-- An announcement of a length: the first byte tells the length itself, or how many bytes spell it. -/
inductive Announces (short : Nat) : Nat → Bytes → Prop
  | told {length : Nat} (small : length ≤ 55) : Announces short length [UInt8.ofNat (short + length)]
  | spelled {length : Nat} {digits : Bytes} (value : beValue digits = length) (nonempty : digits ≠ [])
      (few : digits.length ≤ 8) : Announces short length (UInt8.ofNat (short + 55 + digits.length) :: digits)

inductive Spells : Item → Bytes → Prop
  | byte {byte : UInt8} (low : byte < 128) : Spells (.bytes [byte]) [byte]
  | string {data front : Bytes} (announced : Announces 128 data.length front) : Spells (.bytes data) (front ++ data)
  | list {parts : List (Item × Bytes)} {front : Bytes}
      (announced : Announces 192 (parts.flatMap Prod.snd).length front)
      (inside : ∀ part ∈ parts, Spells part.1 part.2) :
      Spells (.list (parts.map Prod.fst)) (front ++ parts.flatMap Prod.snd)

/-- A spelled length that could have been told, or that starts with a zero. -/
inductive Padded (short : Nat) : Nat → Bytes → Prop
  | needless {length : Nat} {digits : Bytes} (value : beValue digits = length) (nonempty : digits ≠ [])
      (small : length ≤ 55) : Padded short length (UInt8.ofNat (short + 55 + digits.length) :: digits)
  | zero {length : Nat} {digits : Bytes} (value : beValue (0 :: digits) = length) :
      Padded short length (UInt8.ofNat (short + 55 + (0 :: digits).length) :: 0 :: digits)

/-- A spelling that is not the shortest: a single low byte is announced, or a length is padded, at
whatever depth. -/
inductive Redundant : Item → Bytes → Prop
  | byte {byte : UInt8} {front : Bytes} (low : byte < 128) (announced : Announces 128 1 front) :
      Redundant (.bytes [byte]) (front ++ [byte])
  | string {data front : Bytes} (padded : Padded 128 data.length front) : Redundant (.bytes data) (front ++ data)
  | list {parts : List (Item × Bytes)} {front : Bytes}
      (padded : Padded 192 (parts.flatMap Prod.snd).length front)
      (inside : ∀ part ∈ parts, Spells part.1 part.2) :
      Redundant (.list (parts.map Prod.fst)) (front ++ parts.flatMap Prod.snd)
  | inside {parts : List (Item × Bytes)} {front : Bytes} {part : Item × Bytes}
      (announced : Announces 192 (parts.flatMap Prod.snd).length front)
      (inside : ∀ part ∈ parts, Spells part.1 part.2) (member : part ∈ parts)
      (redundant : Redundant part.1 part.2) :
      Redundant (.list (parts.map Prod.fst)) (front ++ parts.flatMap Prod.snd)

section Lengths

theorem beValue_zero_cons (digits : Bytes) : beValue (0 :: digits) = beValue digits :=
  beValue_replicate_zero_append 1 digits

/-- A number is spelled by at least as many bytes as it needs. -/
theorem bigEndian_beValue_length_le (digits : Bytes) : (bigEndian (beValue digits)).length ≤ digits.length :=
  bigEndian_length_le (beValue_lt digits)

theorem bigEndian_length_mono {m n : Nat} (below : m ≤ n) : (bigEndian m).length ≤ (bigEndian n).length := by
  refine bigEndian_length_le (below.trans_lt ?_)
  have bound := beValue_lt (bigEndian n)
  rwa [beValue_bigEndian] at bound

/-- Without a leading zero there is one spelling of a number. -/
theorem bigEndian_beValue {first : UInt8} {digits : Bytes} (nonzero : first ≠ 0) :
    bigEndian (beValue (first :: digits)) = first :: digits := by
  have small : ∀ d ∈ (first :: digits).reverse.map UInt8.toNat, d < 256 := by
    intro d member
    obtain ⟨byte, _, rfl⟩ := List.mem_map.mp member
    exact byte.toNat_lt
  have back : ((first :: digits).reverse.map UInt8.toNat).map UInt8.ofNat = (first :: digits).reverse := by
    rw [List.map_map, show UInt8.ofNat ∘ UInt8.toNat = id from funext fun _ => UInt8.ofNat_toNat, List.map_id]
  have value := beValue_reverse_map_ofNat small
  rw [back, List.reverse_reverse] at value
  rw [value, bigEndian, Nat.digits_ofDigits 256 (by decide) _ small, back, List.reverse_reverse]
  intro _
  simpa [← UInt8.toNat_inj] using nonzero

theorem frame_length_mono (short : Nat) {m n : Nat} (below : m ≤ n) :
    (frame short m).length ≤ (frame short n).length := by
  have digits := bigEndian_length_mono below
  unfold frame
  split
  · split <;> simp
  · rw [if_neg (by omega)]
    simpa using digits

end Lengths

section Announcements
variable {short length : Nat} {front : Bytes}

theorem Announces.ne_nil (announced : Announces short length front) : front ≠ [] := by
  cases announced <;> simp

theorem announces_frame (short : Nat) (bound : length < 2 ^ 64) : Announces short length (frame short length) := by
  unfold frame
  split
  · rename_i small
    exact .told small
  · rename_i large
    refine .spelled (beValue_bigEndian length) ?_ (bigEndian_length_le (bound.trans_eq (by norm_num)))
    exact List.ne_nil_of_length_pos (bigEndian_length_pos (by omega))

theorem Announces.frame_or_padded (announced : Announces short length front) :
    front = frame short length ∨ Padded short length front := by
  cases announced with
  | told small => exact .inl (if_pos small).symm
  | @spelled digits value nonempty few =>
    by_cases small : length ≤ 55
    · exact .inr (.needless value nonempty small)
    · obtain ⟨first, rest, rfl⟩ := List.exists_cons_of_ne_nil nonempty
      by_cases zero : first = 0
      · subst zero
        exact .inr (.zero value)
      · left
        rw [frame, if_neg small, ← value, bigEndian_beValue zero]

theorem Padded.length_lt (padded : Padded short length front) : (frame short length).length < front.length := by
  unfold frame
  cases padded with
  | needless value nonempty small =>
    rw [if_pos small, List.length_cons]
    have positive := List.length_pos_iff.mpr nonempty
    simpa using positive
  | @zero digits value =>
    have needed := bigEndian_beValue_length_le digits
    rw [← beValue_zero_cons, value] at needed
    split
    · simp
    · simp only [List.length_cons]
      omega

theorem Announces.length_le (announced : Announces short length front) :
    (frame short length).length ≤ front.length := by
  rcases announced.frame_or_padded with rfl | padded
  · exact Nat.le_refl _
  · exact Nat.le_of_lt padded.length_lt

end Announcements

section Spellings
variable {item : Item} {spelling : Bytes}

theorem Spells.ne_nil (spells : Spells item spelling) : spelling ≠ [] := by
  cases spells with
  | byte low => simp
  | string announced => exact List.append_ne_nil_of_left_ne_nil announced.ne_nil _
  | list announced inside => exact List.append_ne_nil_of_left_ne_nil announced.ne_nil _

mutual
/-- The encoding of an item is one of its spellings. -/
theorem spells_serialize : ∀ x : Item, (serialize x).length < 2 ^ 64 → Spells x (serialize x)
  | .bytes data, bound => by
    rcases serialize_bytes_cases data with ⟨byte, rfl, low, spelled⟩ | spelled
    · rw [spelled]
      exact .byte low
    · rw [spelled]
      exact .string (announces_frame 128 ((length_le_serialize_bytes data).trans_lt bound))
  | .list items, bound => by
    have short := (length_le_serialize_list items).trans_lt bound
    obtain ⟨parts, rfl, payload, inside⟩ := spells_serializeAll items short
    rw [← payload] at short
    rw [serialize, ← payload]
    exact .list (announces_frame 192 short) inside

theorem spells_serializeAll : ∀ items : List Item, (serializeAll items).length < 2 ^ 64 →
    ∃ parts : List (Item × Bytes), parts.map Prod.fst = items ∧ parts.flatMap Prod.snd = serializeAll items ∧
      ∀ part ∈ parts, Spells part.1 part.2
  | [], _ => ⟨[], rfl, rfl, by simp⟩
  | item :: items, bound => by
    rw [serializeAll, List.length_append] at bound
    have first := spells_serialize item (by omega)
    obtain ⟨parts, rfl, payload, inside⟩ := spells_serializeAll items (by omega)
    refine ⟨(item, serialize item) :: parts, rfl, ?_, ?_⟩
    · rw [List.flatMap_cons, payload, serializeAll]
    · intro part member
      rcases List.mem_cons.mp member with rfl | later
      · exact first
      · exact inside part later
end

/-- The payload of a list is as long as its parts. -/
theorem serializeAll_length_le_parts {parts : List (Item × Bytes)}
    (each : ∀ part ∈ parts, (serialize part.1).length ≤ part.2.length) :
    (serializeAll (parts.map Prod.fst)).length ≤ (parts.flatMap Prod.snd).length := by
  induction parts with
  | nil => simp [serializeAll]
  | cons part rest ih =>
    have first := each part List.mem_cons_self
    have later := ih fun other member => each other (List.mem_cons_of_mem _ member)
    rw [List.map_cons, serializeAll, List.flatMap_cons, List.length_append, List.length_append]
    omega

theorem serializeAll_length_lt_parts {parts : List (Item × Bytes)} {part : Item × Bytes}
    (each : ∀ part ∈ parts, (serialize part.1).length ≤ part.2.length) (member : part ∈ parts)
    (longer : (serialize part.1).length < part.2.length) :
    (serializeAll (parts.map Prod.fst)).length < (parts.flatMap Prod.snd).length := by
  obtain ⟨before, after, rfl⟩ := List.append_of_mem member
  have earlier := serializeAll_length_le_parts fun other inside => each other (List.mem_append_left _ inside)
  have later := serializeAll_length_le_parts fun other inside =>
    each other (List.mem_append_right _ (List.mem_cons_of_mem _ inside))
  simp only [List.map_append, List.map_cons, serializeAll_append, serializeAll, List.flatMap_append,
    List.flatMap_cons, List.length_append]
  omega

/-- No spelling is shorter than the encoding. -/
theorem Spells.length_le (spells : Spells item spelling) : (serialize item).length ≤ spelling.length := by
  induction spells with
  | byte low => simp [serialize, low]
  | @string data front announced =>
    have header := announced.length_le
    rcases serialize_bytes_cases data with ⟨byte, rfl, _, spelled⟩ | spelled
    · simp [spelled]
    · rw [spelled, List.length_append, List.length_append]
      omega
  | @list parts front announced inside ih =>
    have payload := serializeAll_length_le_parts ih
    have header := (frame_length_mono 192 payload).trans announced.length_le
    rw [serialize, List.length_append, List.length_append]
    omega

/-- A redundant spelling is longer than the encoding. -/
theorem Redundant.length_lt (redundant : Redundant item spelling) : (serialize item).length < spelling.length := by
  induction redundant with
  | byte low announced =>
    have nonempty := List.length_pos_iff.mpr announced.ne_nil
    simp only [serialize, low, if_true, List.length_singleton, List.length_append]
    omega
  | @string data front padded =>
    have header := padded.length_lt
    rcases serialize_bytes_cases data with ⟨byte, rfl, _, spelled⟩ | spelled
    · rw [spelled, List.length_append]
      omega
    · rw [spelled, List.length_append, List.length_append]
      omega
  | @list parts front padded inside =>
    have payload := serializeAll_length_le_parts fun part member => (inside part member).length_le
    have header := (frame_length_mono 192 payload).trans_lt padded.length_lt
    rw [serialize, List.length_append, List.length_append]
    omega
  | @inside parts front part announced inside member redundant ih =>
    have payload := serializeAll_length_lt_parts (fun part member => (inside part member).length_le) member ih
    have header := (frame_length_mono 192 payload.le).trans announced.length_le
    rw [serialize, List.length_append, List.length_append]
    omega

theorem flatMap_eq_serializeAll {parts : List (Item × Bytes)} (each : ∀ part ∈ parts, part.2 = serialize part.1) :
    parts.flatMap Prod.snd = serializeAll (parts.map Prod.fst) := by
  induction parts with
  | nil => rfl
  | cons part rest ih =>
    rw [List.flatMap_cons, List.map_cons, serializeAll, each part List.mem_cons_self,
      ih fun other member => each other (List.mem_cons_of_mem _ member)]

theorem Spells.serialize_or_redundant (spells : Spells item spelling) :
    spelling = serialize item ∨ Redundant item spelling := by
  induction spells with
  | byte low => exact .inl (by simp [serialize, low])
  | @string data front announced =>
    rcases announced.frame_or_padded with rfl | padded
    · rcases serialize_bytes_cases data with ⟨byte, rfl, low, _⟩ | spelled
      · exact .inr (.byte low announced)
      · exact .inl spelled.symm
    · exact .inr (.string padded)
  | @list parts front announced inside ih =>
    by_cases deeper : ∃ part ∈ parts, Redundant part.1 part.2
    · obtain ⟨part, member, redundant⟩ := deeper
      exact .inr (.inside announced inside member redundant)
    · have payload : parts.flatMap Prod.snd = serializeAll (parts.map Prod.fst) :=
        flatMap_eq_serializeAll fun part member =>
          (ih part member).resolve_right fun redundant => deeper ⟨part, member, redundant⟩
      rcases announced.frame_or_padded with rfl | padded
      · left
        rw [serialize, payload]
      · exact .inr (.list padded inside)

/-- Of all spellings of an item the encoding alone is not redundant. -/
theorem Spells.eq_serialize_iff (spells : Spells item spelling) :
    spelling = serialize item ↔ ¬ Redundant item spelling := by
  constructor
  · rintro rfl redundant
    exact Nat.lt_irrefl _ redundant.length_lt
  · exact spells.serialize_or_redundant.resolve_right

end Spellings

section Comparison

/-- The first item is encoded in no more bytes than the second one. -/
def NoLonger (x y : Item) : Prop := (serialize x).length ≤ (serialize y).length

/-- Without its leading zeros a spelling of a number is the shortest one. -/
theorem dropWhile_zero (digits : Bytes) : digits.dropWhile (· == 0) = bigEndian (beValue digits) := by
  rw [← beValue_dropWhile_zero]
  cases stripped : digits.dropWhile (· == 0) with
  | nil => rfl
  | cons first rest =>
    have nonzero := List.head_dropWhile_not (· == 0) (l := digits) (by simp [stripped])
    simp only [stripped, List.head_cons, beq_eq_false_iff_ne] at nonzero
    exact (bigEndian_beValue nonzero).symm

/-- A string does not get longer if bytes in front are left out, also where a single byte stands for itself. -/
theorem noLonger_of_suffix {data data' : Bytes} (suffix : data' <:+ data) : NoLonger (.bytes data') (.bytes data) := by
  rcases suffix.length_le.eq_or_lt with same | shorter
  · rw [suffix.eq_of_length same]
    exact Nat.le_refl _
  · have header := frame_length_mono 128 shorter.le
    have nonempty : 0 < (serialize (.bytes data)).length := (length_le_serialize_bytes data).trans_lt' (by omega)
    unfold NoLonger
    rcases serialize_bytes_cases data' with ⟨byte, rfl, _, spelled'⟩ | spelled'
    · rw [spelled']
      exact nonempty
    · rcases serialize_bytes_cases data with ⟨byte, rfl, _, spelled⟩ | spelled
      · obtain rfl : data' = [] := List.length_eq_zero_iff.mp (by simpa using shorter)
        exact nonempty
      · rw [spelled', spelled, List.length_append, List.length_append]
        omega

theorem serializeAll_length_mono {xs ys : List Item} (each : List.Forall₂ NoLonger xs ys) :
    (serializeAll xs).length ≤ (serializeAll ys).length := by
  induction each with
  | nil => exact Nat.le_refl _
  | cons first _ ih =>
    rw [serializeAll, serializeAll, List.length_append, List.length_append]
    exact Nat.add_le_add first ih

theorem noLonger_list {xs ys : List Item} (each : List.Forall₂ NoLonger xs ys) : NoLonger (.list xs) (.list ys) := by
  have payload := serializeAll_length_mono each
  have header := frame_length_mono 192 payload
  rw [NoLonger, serialize, serialize, List.length_append, List.length_append]
  omega

/-- There is an item in position `i`, and `y` is no longer than it. -/
def CoveredAt (x : List Item) (i : Nat) (y : Item) : Prop := ∃ item, x[i]? = some item ∧ NoLonger y item

/-- The items from position `i` on are as many as the given ones, which are no longer. -/
def CoveredFrom (x : List Item) : Nat → List Item → Prop
  | i, [] => x.length = i
  | i, y :: rest => CoveredAt x i y ∧ CoveredFrom x (i + 1) rest

theorem CoveredFrom.forall₂ {x ys : List Item} {i : Nat} (covered : CoveredFrom x i ys) :
    List.Forall₂ NoLonger ys (x.drop i) := by
  induction ys generalizing i with
  | nil =>
    rw [List.drop_of_length_le (Nat.le_of_eq covered)]
    exact .nil
  | cons y rest ih =>
    obtain ⟨⟨item, here, fits⟩, later⟩ := covered
    obtain ⟨inside, rfl⟩ := List.getElem?_eq_some_iff.mp here
    rw [List.drop_eq_getElem_cons inside]
    exact .cons fits (ih later)

theorem CoveredFrom.noLonger {x ys : List Item} (covered : CoveredFrom x 0 ys) : NoLonger (.list ys) (.list x) :=
  noLonger_list covered.forall₂

end Comparison

end Rlp
