import MiniEthNode.RlpCodec.Decoder

namespace MiniEthNode
open Rust Rlp

/-- Every call returns. A call that succeeds has taken at least one byte, and what follows the bytes
that it has taken does not matter. -/
theorem decode_self_delimiting (input : Bytes) :
    (∃ error, decode input = .err error) ∨
    ∃ item front rest, decode input = .ok (item, rest) ∧ front ≠ [] ∧ input = front ++ rest ∧
      ∀ t : Bytes, decode (input ++ t) = .ok (item, rest ++ t) := by
  cases read : decode input with
  | panic => exact absurd read (decode_ne_panic input)
  | err error => exact .inl ⟨error, rfl⟩
  | ok result =>
    obtain ⟨item, rest⟩ := result
    obtain ⟨front, spells, whole⟩ := decode_eq_ok_iff.mp read
    refine .inr ⟨item, front, rest, rfl, spells.ne_nil, whole, fun t => ?_⟩
    rw [decode_eq_ok_iff]
    exact ⟨front, spells, by rw [whole, List.append_assoc]⟩

/-- What was accepted is what the encoder writes exactly if no single byte below 128 is announced and
no length is padded, at any depth. -/
theorem decode_canonical_iff {input rest : Bytes} {item : RlpItem} (read : decode input = .ok (item, rest)) :
    ∃ front, input = front ++ rest ∧ Spells item front ∧
      ((∃ bytes, encode item [] = .ok bytes ∧ bytes ++ rest = input) ↔ ¬ Redundant item front) := by
  obtain ⟨front, spells, rfl⟩ := decode_eq_ok_iff.mp read
  refine ⟨front, rfl, spells, ?_⟩
  rw [← spells.eq_serialize_iff, encode_eq, List.nil_append]
  constructor
  · rintro ⟨bytes, encoded, same⟩
    cases encoded
    exact (List.append_cancel_right same).symm
  · rintro rfl
    exact ⟨_, rfl, rfl⟩

/-- A list of two strings, one of them announced as it must be, in front of one more byte. -/
theorem decode_canonical_iff_cat :
    let input : Bytes := [0xc5, 0x83, 99, 97, 116, 5, 7]
    let item : RlpItem := .list [.bytes [99, 97, 116], .bytes [5]]
    decode input = .ok (item, [7]) ∧ ∃ front, input = front ++ [7] ∧ Spells item front ∧
      ((∃ bytes, encode item [] = .ok bytes ∧ bytes ++ [7] = input) ↔ ¬ Redundant item front) := by
  intro input item
  have read : decode input = .ok (item, [7]) := rfl
  exact ⟨read, decode_canonical_iff read⟩

/-- The three kinds of spellings that the encoder never writes are accepted, also inside a list: an
announced low byte, a spelled length up to 55, and a length with a leading zero. -/
theorem decode_accepts_redundant :
    let long : Bytes := List.replicate 56 7
    (decode [0x81, 5] = .ok (.bytes [5], []) ∧ encode (.bytes [5]) [] = .ok [5]) ∧
    (decode [0xb8, 1, 0x80] = .ok (.bytes [0x80], []) ∧ encode (.bytes [0x80]) [] = .ok [0x81, 0x80]) ∧
    (decode (0xb9 :: 0 :: 56 :: long) = .ok (.bytes long, []) ∧ encode (.bytes long) [] = .ok (0xb8 :: 56 :: long)) ∧
    (decode [0xf8, 0] = .ok (.list [], []) ∧ encode (.list []) [] = .ok [0xc0]) ∧
    (decode [0xc3, 0xc2, 0x81, 5] = .ok (.list [.list [.bytes [5]]], []) ∧
      encode (.list [.list [.bytes [5]]]) [] = .ok [0xc2, 0xc1, 5]) :=
  ⟨⟨rfl, rfl⟩, ⟨rfl, rfl⟩, ⟨rfl, rfl⟩, ⟨rfl, rfl⟩, ⟨rfl, rfl⟩⟩

end MiniEthNode
