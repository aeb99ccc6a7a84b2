import Mathlib.Data.Nat.Digits.Lemmas
import MiniEthNode.Rust.Integer

namespace Rlp
open Rust

/-- A byte string, or a sequence of items. -/
inductive Item where
  | bytes (data : Bytes)
  | list (items : List Item)

/-- The shortest big-endian spelling of a number. -/
def bigEndian (n : Nat) : Bytes :=
  ((Nat.digits 256 n).map UInt8.ofNat).reverse

/-- The length announcement before a payload: one byte up to length 55, and
otherwise the size of the length followed by the length itself. -/
def frame (short : Nat) (length : Nat) : Bytes :=
  if length ≤ 55 then [UInt8.ofNat (short + length)]
  else UInt8.ofNat (short + 55 + (bigEndian length).length) :: bigEndian length

mutual
/-- A byte below 128 is its own encoding. Every other string is announced from
128 on and every list from 192 on. -/
def serialize : Item → Bytes
  | .bytes data =>
    match data with
    | [byte] => if byte < 128 then [byte] else frame 128 1 ++ [byte]
    | _ => frame 128 data.length ++ data
  | .list items => frame 192 (serializeAll items).length ++ serializeAll items

def serializeAll : List Item → Bytes
  | [] => []
  | item :: rest => serialize item ++ serializeAll rest
end

theorem beValue_reverse_map_ofNat {digits : List Nat} (small : ∀ d ∈ digits, d < 256) :
    beValue (digits.map UInt8.ofNat).reverse = Nat.ofDigits 256 digits := by
  induction digits with
  | nil => rfl
  | cons d rest ih =>
    have head : d < 256 := small d List.mem_cons_self
    rw [List.map_cons, List.reverse_cons, beValue_append_singleton, Nat.ofDigits_cons,
      ih (fun x member => small x (List.mem_cons_of_mem _ member)), UInt8.toNat_ofNat_of_lt' head]
    ring

theorem beValue_bigEndian (n : Nat) : beValue (bigEndian n) = n := by
  rw [bigEndian, beValue_reverse_map_ofNat (fun _ member => Nat.digits_lt_base (by decide) member),
    Nat.ofDigits_digits]

theorem bigEndian_injective {m n : Nat} (same : bigEndian m = bigEndian n) : m = n := by
  rw [← beValue_bigEndian m, same, beValue_bigEndian]

theorem bigEndian_length_le {n k : Nat} (small : n < 256 ^ k) : (bigEndian n).length ≤ k := by
  simpa [bigEndian] using (Nat.digits_length_le_iff (by decide) n).mpr small

theorem bigEndian_length_pos {n : Nat} (positive : 0 < n) : 0 < (bigEndian n).length := by
  have nonempty : Nat.digits 256 n ≠ [] := Nat.digits_ne_nil_iff_ne_zero.mpr (Nat.ne_of_gt positive)
  simpa [bigEndian, List.length_pos_iff] using nonempty

/-- The announced length is read back from the front of any input. -/
theorem frame_append_inj {short m n : Nat} {rest rest' : Bytes} (base : short ≤ 192)
    (boundM : m < 2 ^ 64) (boundN : n < 2 ^ 64) (same : frame short m ++ rest = frame short n ++ rest') :
    m = n ∧ rest = rest' := by
  have widthM := bigEndian_length_le (k := 8) (boundM.trans_eq (by norm_num))
  have widthN := bigEndian_length_le (k := 8) (boundN.trans_eq (by norm_num))
  have first (x y : Nat) (smallX : x < 256) (smallY : y < 256) (bytes : UInt8.ofNat x = UInt8.ofNat y) :
      x = y := by
    rw [← UInt8.toNat_ofNat_of_lt' smallX, bytes, UInt8.toNat_ofNat_of_lt' smallY]
  unfold frame at same
  split at same
  · rename_i shortM
    split at same
    · simp only [List.cons_append, List.nil_append, List.cons.injEq] at same
      have equal := first _ _ (by omega) (by omega) same.1
      exact ⟨by omega, same.2⟩
    · rename_i longN
      simp only [List.cons_append, List.nil_append, List.cons.injEq] at same
      have equal := first _ _ (by omega) (by omega) same.1
      have positive := bigEndian_length_pos (n := n) (by omega)
      omega
  · rename_i longM
    split at same
    · simp only [List.cons_append, List.nil_append, List.cons.injEq] at same
      have equal := first _ _ (by omega) (by omega) same.1
      have positive := bigEndian_length_pos (n := m) (by omega)
      omega
    · simp only [List.cons_append, List.cons.injEq] at same
      have equal := first _ _ (by omega) (by omega) same.1
      obtain ⟨spelled, tail⟩ := List.append_inj same.2 (by omega)
      exact ⟨bigEndian_injective spelled, tail⟩

/-- The first byte of an announcement tells strings and lists apart. -/
theorem frame_head {short n : Nat} (base : short ≤ 192) (bound : n < 2 ^ 64) :
    ∃ byte rest, frame short n = byte :: rest ∧ short ≤ byte.toNat ∧ byte.toNat < short + 64 := by
  have width := bigEndian_length_le (k := 8) (bound.trans_eq (by norm_num))
  unfold frame
  split
  · refine ⟨_, _, rfl, ?_⟩
    rw [UInt8.toNat_ofNat_of_lt' (show short + n < 256 by omega)]
    omega
  · refine ⟨_, _, rfl, ?_⟩
    rw [UInt8.toNat_ofNat_of_lt' (show short + 55 + (bigEndian n).length < 256 by omega)]
    omega

theorem frame_length_le (short : Nat) {n : Nat} (bound : n < 2 ^ 64) : (frame short n).length ≤ 9 := by
  have width := bigEndian_length_le (k := 8) (bound.trans_eq (by norm_num))
  unfold frame
  split
  · simp
  · simp only [List.length_cons]
    omega

theorem serialize_bytes_cases (data : Bytes) :
    (∃ byte, data = [byte] ∧ byte < 128 ∧ serialize (.bytes data) = [byte]) ∨
      serialize (.bytes data) = frame 128 data.length ++ data := by
  unfold serialize
  split
  · rename_i byte
    split
    · rename_i low
      exact Or.inl ⟨byte, rfl, low, rfl⟩
    · exact Or.inr rfl
  · exact Or.inr rfl

theorem length_le_serialize_bytes (data : Bytes) : data.length ≤ (serialize (.bytes data)).length := by
  rcases serialize_bytes_cases data with ⟨byte, rfl, _, spelled⟩ | spelled <;> simp [spelled]

theorem length_le_serialize_list (items : List Item) :
    (serializeAll items).length ≤ (serialize (.list items)).length := by
  simp [serialize]

theorem serialize_bytes_length_le (data : Bytes) (bound : data.length < 2 ^ 64) :
    (serialize (.bytes data)).length ≤ data.length + 9 := by
  rcases serialize_bytes_cases data with ⟨byte, rfl, _, spelled⟩ | spelled
  · simp [spelled]
  · have header := frame_length_le 128 bound
    rw [spelled, List.length_append]
    omega

theorem serialize_list_length_le {items : List Item} (bound : (serializeAll items).length < 2 ^ 64) :
    (serialize (.list items)).length ≤ (serializeAll items).length + 9 := by
  have header := frame_length_le 192 bound
  rw [serialize, List.length_append]
  omega

theorem serialize_singleton_bounds (item : Item) (bound : (serialize item).length < 2 ^ 64) :
    (serialize item).length ≤ (serialize (.list [item])).length ∧
      (serialize (.list [item])).length ≤ (serialize item).length + 9 := by
  have payload : (serializeAll [item]).length = (serialize item).length := by
    rw [serializeAll, serializeAll, List.append_nil]
  have least := length_le_serialize_list [item]
  have most := serialize_list_length_le (payload.trans_lt bound)
  omega

theorem serializeAll_append (xs ys : List Item) : serializeAll (xs ++ ys) = serializeAll xs ++ serializeAll ys := by
  induction xs with
  | nil => rfl
  | cons x xs ih => rw [List.cons_append, serializeAll, ih, serializeAll, List.append_assoc]

theorem serializeAll_length_le {items : List Item} {width : Nat}
    (each : ∀ item ∈ items, (serialize item).length ≤ width) :
    (serializeAll items).length ≤ items.length * width := by
  induction items with
  | nil => simp [serializeAll]
  | cons item rest ih =>
    have first := each item List.mem_cons_self
    have later := ih fun item member => each item (List.mem_cons_of_mem _ member)
    rw [serializeAll, List.length_append, List.length_cons, Nat.succ_mul]
    omega

theorem serialize_bytes_append_inj {data data' rest rest' : Bytes} (bound : data.length < 2 ^ 64)
    (bound' : data'.length < 2 ^ 64)
    (same : serialize (.bytes data) ++ rest = serialize (.bytes data') ++ rest') :
    data = data' ∧ rest = rest' := by
  have announced {byte : UInt8} {string tail tail' : Bytes} (low : byte < 128) (short : string.length < 2 ^ 64)
      (equal : [byte] ++ tail = frame 128 string.length ++ string ++ tail') : False := by
    obtain ⟨first, others, spelled, lower, _⟩ := frame_head (show 128 ≤ 192 by decide) short
    rw [spelled] at equal
    simp only [List.cons_append, List.cons.injEq] at equal
    rw [← equal.1] at lower
    have small : byte.toNat < 128 := low
    omega
  rcases serialize_bytes_cases data with ⟨byte, rfl, low, spelled⟩ | spelled
  · rcases serialize_bytes_cases data' with ⟨byte', rfl, _, spelled'⟩ | spelled'
    · rw [spelled, spelled'] at same
      exact List.append_inj same rfl
    · rw [spelled, spelled'] at same
      exact (announced low bound' same).elim
  · rcases serialize_bytes_cases data' with ⟨byte', rfl, low', spelled'⟩ | spelled'
    · rw [spelled, spelled'] at same
      exact (announced low' bound same.symm).elim
    · rw [spelled, spelled', List.append_assoc, List.append_assoc] at same
      obtain ⟨length, payload⟩ := frame_append_inj (by decide) bound bound' same
      exact List.append_inj payload length

/-- A string never starts like a list. -/
theorem serialize_bytes_ne_list {data rest rest' : Bytes} {items : List Item} (bound : data.length < 2 ^ 64)
    (bound' : (serializeAll items).length < 2 ^ 64) :
    serialize (.bytes data) ++ rest ≠ serialize (.list items) ++ rest' := by
  intro same
  obtain ⟨first, others, spelled, lower, _⟩ := frame_head (show 192 ≤ 192 by decide) bound'
  rw [show serialize (.list items) = frame 192 (serializeAll items).length ++ serializeAll items by
    simp [serialize], spelled] at same
  rcases serialize_bytes_cases data with ⟨byte, rfl, low, spelledData⟩ | spelledData
  · rw [spelledData] at same
    simp only [List.cons_append, List.cons.injEq] at same
    rw [← same.1] at lower
    have small : byte.toNat < 128 := low
    omega
  · obtain ⟨second, others', spelled', _, upper⟩ := frame_head (show 128 ≤ 192 by decide) bound
    rw [spelledData, spelled'] at same
    simp only [List.cons_append, List.cons.injEq] at same
    rw [← same.1] at lower
    omega

theorem serialize_ne_nil {x : Item} (bound : (serialize x).length < 2 ^ 64) : serialize x ≠ [] := by
  cases x with
  | bytes data =>
    rcases serialize_bytes_cases data with ⟨byte, _, _, spelled⟩ | spelled
    · simp [spelled]
    · have short := (length_le_serialize_bytes data).trans_lt bound
      obtain ⟨first, others, head, _, _⟩ := frame_head (show 128 ≤ 192 by decide) short
      simp [spelled, head]
  | list items =>
    have short := (length_le_serialize_list items).trans_lt bound
    obtain ⟨first, others, head, _, _⟩ := frame_head (show 192 ≤ 192 by decide) short
    simp [serialize, head]

mutual
/-- Unique readability: an item is determined by any input that starts with
its encoding, and so is what follows it. -/
theorem serialize_append_inj : ∀ {x y : Item} {rest rest' : Bytes}, (serialize x).length < 2 ^ 64 →
    (serialize y).length < 2 ^ 64 → serialize x ++ rest = serialize y ++ rest' → x = y ∧ rest = rest'
  | .bytes data, .bytes data', rest, rest', bound, bound', same => by
    obtain ⟨equal, tail⟩ := serialize_bytes_append_inj ((length_le_serialize_bytes data).trans_lt bound)
      ((length_le_serialize_bytes data').trans_lt bound') same
    exact ⟨by rw [equal], tail⟩
  | .bytes data, .list items, rest, rest', bound, bound', same =>
    (serialize_bytes_ne_list ((length_le_serialize_bytes data).trans_lt bound)
      ((length_le_serialize_list items).trans_lt bound') same).elim
  | .list items, .bytes data, rest, rest', bound, bound', same =>
    (serialize_bytes_ne_list ((length_le_serialize_bytes data).trans_lt bound')
      ((length_le_serialize_list items).trans_lt bound) same.symm).elim
  | .list items, .list items', rest, rest', bound, bound', same => by
    have short := (length_le_serialize_list items).trans_lt bound
    have short' := (length_le_serialize_list items').trans_lt bound'
    simp only [serialize, List.append_assoc] at same
    obtain ⟨length, payload⟩ := frame_append_inj (by decide) short short' same
    obtain ⟨inside, tail⟩ := List.append_inj payload length
    exact ⟨by rw [serializeAll_inj short short' inside], tail⟩

theorem serializeAll_inj : ∀ {xs ys : List Item}, (serializeAll xs).length < 2 ^ 64 →
    (serializeAll ys).length < 2 ^ 64 → serializeAll xs = serializeAll ys → xs = ys
  | [], [], _, _, _ => rfl
  | [], y :: ys, _, bound', same => by
    simp only [serializeAll, List.length_append] at bound' same
    exact ((serialize_ne_nil (by omega)) (List.append_eq_nil_iff.mp same.symm).1).elim
  | x :: xs, [], bound, _, same => by
    simp only [serializeAll, List.length_append] at bound same
    exact ((serialize_ne_nil (by omega)) (List.append_eq_nil_iff.mp same).1).elim
  | x :: xs, y :: ys, bound, bound', same => by
    simp only [serializeAll, List.length_append] at bound bound' same
    obtain ⟨head, tail⟩ := serialize_append_inj (by omega) (by omega) same
    rw [head, serializeAll_inj (by omega) (by omega) tail]
end

theorem serialize_inj {x y : Item} (bound : (serialize x).length < 2 ^ 64)
    (bound' : (serialize y).length < 2 ^ 64) (same : serialize x = serialize y) : x = y :=
  (serialize_append_inj bound bound' (congrArg (· ++ []) same)).1

end Rlp
