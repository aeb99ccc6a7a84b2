import MiniEthNode.Types.Primitive

namespace MiniEthNode
open Rust

/-- `as_bytes`. -/
def asBytes (s : String) : Bytes := s.toByteArray.data.toList

def checkHexChar (c : UInt8) : Option UInt8 :=
  if 0x30 ≤ c ∧ c ≤ 0x39 then some (c - 0x30)
  else if 0x61 ≤ c ∧ c ≤ 0x66 then some (c - 0x61 + 10)
  else if 0x41 ≤ c ∧ c ≤ 0x46 then some (c - 0x41 + 10)
  else none

/-- The loop over `chunks(2)` from round `i` on, with the bytes it has pushed. -/
def decodeChunks (startsWith0x : Bool) : Nat → Bytes → Bytes → Outcome ParseError Bytes
  | _, [], bytes => .ok bytes
  -- `chunk[1]` is out of range
  | _, [_], _ => .panic
  | i, high :: low :: rest, bytes =>
    let highIndex := if startsWith0x then i * 2 + 2 else i * 2
    let lowIndex := highIndex + 1
    match checkHexChar high with
    | none => .err (.invalidHex (Char.ofNat high.toNat) highIndex)
    | some highVal =>
      match checkHexChar low with
      | none => .err (.invalidHex (Char.ofNat low.toNat) lowIndex)
      | some lowVal => decodeChunks startsWith0x (i + 1) rest (bytes ++ [highVal <<< 4 ||| lowVal])

/-- `s.starts_with("0x") || s.starts_with("0X")`. -/
def startsWith0x (s : String) : Bool :=
  (asBytes "0x").isPrefixOf (asBytes s) || (asBytes "0X").isPrefixOf (asBytes s)

def decodeHex (s : String) : Outcome ParseError Bytes :=
  if (asBytes s).isEmpty then .ok []
  else
    let length := (asBytes s).length
    if length % 2 ≠ 0 then .err (.oddHexLength length)
    else do
      let hexStr ← if startsWith0x s then sliceFrom (asBytes s) 2 else .ok (asBytes s)
      decodeChunks (startsWith0x s) 0 hexStr []

/-- `{:02x}` of a byte, and `{:02X}`. -/
def writeByte (upper : Bool) (byte : UInt8) : List Char :=
  let digits := [Nat.digitChar (byte.toNat / 16), Nat.digitChar (byte.toNat % 16)]
  if upper then digits.map Char.toUpper else digits

namespace FixedBytes
variable {size : Nat}

/-- The body that `Display`, `LowerHex` and `UpperHex` share. The marker has a small letter in all of them. -/
def writeHex (marked upper : Bool) (a : FixedBytes size) : String :=
  String.ofList ((if marked then ['0', 'x'] else []) ++ a.bytes.flatMap (writeByte upper))

def display (a : FixedBytes size) : String := writeHex true false a

def lowerHex (alternate : Bool) (a : FixedBytes size) : String := writeHex alternate false a

def upperHex (alternate : Bool) (a : FixedBytes size) : String := writeHex alternate true a

def fromStr (s : String) : Outcome ParseError (FixedBytes size) := do
  let bytes ← decodeHex s
  tryFrom bytes

end FixedBytes

section Grammar

/-- A hexadecimal digit of either case, with its value. -/
def HexDigit (c : Char) (value : Nat) : Prop := value < 16 ∧ (c = value.digitChar ∨ c = value.digitChar.toUpper)

instance (c : Char) (value : Nat) : Decidable (HexDigit c value) := inferInstanceAs (Decidable (_ ∧ _))

/-- An even number of digits, and the bytes that they make two by two. -/
inductive Pairs : List Char → Bytes → Prop
  | nil : Pairs [] []
  | cons {high low upper lower digits bytes} : HexDigit high upper → HexDigit low lower → Pairs digits bytes →
      Pairs (high :: low :: digits) (UInt8.ofNat (16 * upper + lower) :: bytes)

/-- What may stand in front of the digits. -/
def markers : List (List Char) := [[], ['0', 'x'], ['0', 'X']]

/-- The byte of an ASCII character. -/
def asciiByte (c : Char) : UInt8 := UInt8.ofNat c.toNat

/-- The bytes that stand for a hexadecimal digit. -/
def IsHexByte (byte : UInt8) : Prop := ∃ c value, HexDigit c value ∧ byte = asciiByte c

/-- The bytes of a text behind its marker. -/
def hexBody (s : String) : Bytes := (asBytes s).drop (if startsWith0x s then 2 else 0)

theorem checkHexChar_digit {c : Char} {value : Nat} (digit : HexDigit c value) :
    checkHexChar (asciiByte c) = some (UInt8.ofNat value) := by
  have each : ∀ value : Fin 16, checkHexChar (asciiByte value.val.digitChar) = some (UInt8.ofNat value) ∧
      checkHexChar (asciiByte value.val.digitChar.toUpper) = some (UInt8.ofNat value) := by
    decide +kernel
  obtain ⟨small, rfl | rfl⟩ := digit
  · exact (each ⟨value, small⟩).1
  · exact (each ⟨value, small⟩).2

theorem digit_of_checkHexChar {byte value : UInt8} (read : checkHexChar byte = some value) :
    ∃ c, HexDigit c value.toNat ∧ byte = asciiByte c := by
  have each : ∀ n : Fin 256, UInt8.ofNat n = asciiByte (Char.ofNat n) ∧
      ((checkHexChar (UInt8.ofNat n)).all fun value => decide (HexDigit (Char.ofNat n) value.toNat)) = true := by
    decide +kernel
  obtain ⟨same, digit⟩ := each ⟨byte.toNat, byte.toNat_lt⟩
  rw [UInt8.ofNat_toNat] at same digit
  rw [read, Option.all_some, decide_eq_true_eq] at digit
  exact ⟨_, digit, same⟩

theorem checkHexChar_eq_none_iff {byte : UInt8} : checkHexChar byte = none ↔ ¬ IsHexByte byte := by
  constructor
  · rintro missed ⟨c, value, digit, rfl⟩
    rw [checkHexChar_digit digit] at missed
    cases missed
  · intro other
    cases read : checkHexChar byte with
    | none => rfl
    | some value =>
      obtain ⟨c, digit, same⟩ := digit_of_checkHexChar read
      exact (other ⟨c, value.toNat, digit, same⟩).elim

/-- Both halves of a byte are below 16, so packing them is addition. -/
theorem pack_halves {upper lower : Nat} (high : upper < 16) (low : lower < 16) :
    UInt8.ofNat upper <<< 4 ||| UInt8.ofNat lower = UInt8.ofNat (16 * upper + lower) := by
  have each : ∀ upper lower : Fin 16,
      UInt8.ofNat upper <<< 4 ||| UInt8.ofNat lower = UInt8.ofNat (16 * upper.val + lower.val) := by
    decide +kernel
  exact each ⟨upper, high⟩ ⟨lower, low⟩

/-- The loop reads all pairs, or stops at the first byte that is no digit. The index that it names
counts the marker and the rounds before. -/
theorem decodeChunks_cases (marked : Bool) (i : Nat) (input bytes : Bytes) (even : input.length % 2 = 0) :
    (∃ digits read, input = digits.map asciiByte ∧ Pairs digits read ∧
      decodeChunks marked i input bytes = .ok (bytes ++ read)) ∨
    ∃ front byte rest, input = front ++ byte :: rest ∧ (∀ other ∈ front, IsHexByte other) ∧ ¬ IsHexByte byte ∧
      decodeChunks marked i input bytes =
        .err (.invalidHex (Char.ofNat byte.toNat) ((if marked then 2 else 0) + i * 2 + front.length)) := by
  have position (i : Nat) : (if marked then i * 2 + 2 else i * 2) = (if marked then 2 else 0) + i * 2 := by
    cases marked
    · simp
    · simp only [if_true]
      omega
  fun_induction decodeChunks marked i input bytes with
  | case1 i bytes => exact .inl ⟨[], [], rfl, .nil, by rw [List.append_nil]⟩
  | case2 => simp at even
  | case3 i high low rest bytes highIndex missed =>
    refine .inr ⟨[], high, low :: rest, rfl, by simp, checkHexChar_eq_none_iff.mp missed, ?_⟩
    rw [show highIndex = _ from position i, List.length_nil, Nat.add_zero]
  | case4 i high low rest bytes highIndex lowIndex upper read missed =>
    obtain ⟨c, digit, same⟩ := digit_of_checkHexChar read
    refine .inr ⟨[high], low, rest, rfl, ?_, checkHexChar_eq_none_iff.mp missed, ?_⟩
    · intro other member
      rw [List.mem_singleton.mp member]
      exact ⟨c, upper.toNat, digit, same⟩
    · rw [show lowIndex = _ + 1 from congrArg (· + 1) (position i), List.length_singleton]
  | case5 i high low rest bytes upper readHigh lower readLow ih =>
    obtain ⟨c, first, atHigh⟩ := digit_of_checkHexChar readHigh
    obtain ⟨d, second, atLow⟩ := digit_of_checkHexChar readLow
    have shorter : rest.length % 2 = 0 := by
      simp only [List.length_cons] at even
      omega
    have packed := pack_halves first.1 second.1
    rw [UInt8.ofNat_toNat, UInt8.ofNat_toNat] at packed
    rcases ih shorter with ⟨digits, read, same, pairs, ran⟩ | ⟨front, byte, behind, same, before, other, ran⟩
    · refine .inl ⟨c :: d :: digits, _ :: read, ?_, .cons first second pairs, ?_⟩
      · rw [List.map_cons, List.map_cons, atHigh, atLow, same]
      · rw [ran, packed, List.append_assoc, List.singleton_append]
    · refine .inr ⟨high :: low :: front, byte, behind, by rw [same]; rfl, ?_, other, ?_⟩
      · intro earlier member
        rcases List.mem_cons.mp member with rfl | member
        · exact ⟨c, upper.toNat, first, atHigh⟩
        · rcases List.mem_cons.mp member with rfl | member
          · exact ⟨d, lower.toNat, second, atLow⟩
          · exact before earlier member
      · rw [ran, List.length_cons, List.length_cons]
        congr 2
        omega

theorem decodeChunks_pairs (marked : Bool) {digits : List Char} {read : Bytes} (pairs : Pairs digits read) (i : Nat)
    (bytes : Bytes) : decodeChunks marked i (digits.map asciiByte) bytes = .ok (bytes ++ read) := by
  induction pairs generalizing i bytes with
  | nil => rw [List.map_nil, decodeChunks, List.append_nil]
  | cons first second _ ih =>
    rw [List.map_cons, List.map_cons, decodeChunks, checkHexChar_digit first, checkHexChar_digit second]
    simp only
    rw [ih, pack_halves first.1 second.1, List.append_assoc, List.singleton_append]

/-- An even text is read in the loop alone, also if it is empty. -/
theorem decodeHex_even {s : String} (even : (asBytes s).length % 2 = 0) :
    decodeHex s = decodeChunks (startsWith0x s) 0 (hexBody s) [] := by
  rw [decodeHex, hexBody]
  by_cases empty : asBytes s = []
  · rw [empty, List.drop_nil]
    rfl
  · rw [if_neg (by simpa using empty)]
    simp only [even, ne_eq, not_true_eq_false, if_false]
    split
    · rename_i marked
      have long : 2 ≤ (asBytes s).length := by
        have := List.length_pos_iff.mpr empty
        omega
      rw [sliceFrom_ok long]
      rfl
    · rfl

theorem decodeHex_odd {s : String} (odd : (asBytes s).length % 2 = 1) :
    decodeHex s = .err (.oddHexLength (asBytes s).length) := by
  have nonempty : asBytes s ≠ [] := by
    intro empty
    rw [empty] at odd
    cases odd
  rw [decodeHex, if_neg (by simpa using nonempty)]
  simp only [odd, ne_eq, one_ne_zero, not_false_eq_true, if_true]

section Text

theorem asBytes_inj {s t : String} (same : asBytes s = asBytes t) : s = t := by
  refine String.toByteArray_inj.mp (ByteArray.ext (Array.ext' same))

/-- ASCII characters are their own bytes. -/
theorem asBytes_ofList {chars : List Char} (ascii : ∀ c ∈ chars, c.toNat ≤ 127) :
    asBytes (String.ofList chars) = chars.map asciiByte := by
  have encoded : asBytes (String.ofList chars) = chars.flatMap String.utf8EncodeChar := by
    rw [asBytes, String.toByteArray_ofList, List.utf8Encode, List.toList_data_toByteArray]
  rw [encoded]
  clear encoded
  induction chars with
  | nil => rfl
  | cons c rest ih =>
    have small : c.val.toNat ≤ 127 := ascii c List.mem_cons_self
    rw [List.flatMap_cons, ih fun other member => ascii other (List.mem_cons_of_mem _ member), List.map_cons,
      String.utf8EncodeChar]
    simp only [small, if_true]
    rfl

theorem HexDigit.ascii {c : Char} {value : Nat} (digit : HexDigit c value) : c.toNat ≤ 127 := by
  have each : ∀ value : Fin 16, value.val.digitChar.toNat ≤ 127 ∧ value.val.digitChar.toUpper.toNat ≤ 127 := by
    decide +kernel
  obtain ⟨small, rfl | rfl⟩ := digit
  · exact (each ⟨value, small⟩).1
  · exact (each ⟨value, small⟩).2

theorem Pairs.ascii {digits : List Char} {read : Bytes} (pairs : Pairs digits read) :
    ∀ c ∈ digits, c.toNat ≤ 127 := by
  induction pairs with
  | nil => simp
  | cons first second _ ih =>
    intro c member
    rcases List.mem_cons.mp member with rfl | member
    · exact first.ascii
    · rcases List.mem_cons.mp member with rfl | member
      · exact second.ascii
      · exact ih c member

theorem Pairs.length_even {digits : List Char} {read : Bytes} (pairs : Pairs digits read) : digits.length % 2 = 0 := by
  induction pairs with
  | nil => rfl
  | cons _ _ _ ih =>
    rw [List.length_cons, List.length_cons]
    omega

/-- The bytes of a marked text. -/
theorem asBytes_marked {marker digits : List Char} {read : Bytes} (marks : marker ∈ markers)
    (pairs : Pairs digits read) :
    asBytes (String.ofList (marker ++ digits)) = marker.map asciiByte ++ digits.map asciiByte := by
  have each : ∀ c ∈ marker, c.toNat ≤ 127 := by
    simp only [markers, List.mem_cons, List.not_mem_nil, or_false] at marks
    rcases marks with rfl | rfl | rfl <;> simp
  rw [asBytes_ofList, List.map_append]
  intro c member
  rcases List.mem_append.mp member with front | back
  · exact each c front
  · exact pairs.ascii c back

/-- The marker that the parser takes off. -/
theorem exists_marker (s : String) : ∃ marker ∈ markers, asBytes s = marker.map asciiByte ++ hexBody s ∧
    marker.length = if startsWith0x s then 2 else 0 := by
  rw [hexBody]
  by_cases marked : startsWith0x s = true
  · rw [if_pos marked]
    rw [startsWith0x, Bool.or_eq_true, List.isPrefixOf_iff_prefix, List.isPrefixOf_iff_prefix] at marked
    rcases marked with ⟨rest, same⟩ | ⟨rest, same⟩
    · refine ⟨['0', 'x'], by decide, ?_, rfl⟩
      rw [← same]
      rfl
    · refine ⟨['0', 'X'], by decide, ?_, rfl⟩
      rw [← same]
      rfl
  · rw [if_neg marked]
    exact ⟨[], by decide, rfl, rfl⟩

/-- The letter of a marker is no digit, so digits alone are not taken for one. -/
theorem Pairs.unmarked {digits : List Char} {read : Bytes} (pairs : Pairs digits read) {s : String}
    (same : asBytes s = digits.map asciiByte) : startsWith0x s = false := by
  have small : asBytes "0x" = [0x30, 0x78] := by decide +kernel
  have large : asBytes "0X" = [0x30, 0x58] := by decide +kernel
  rw [startsWith0x, same, small, large]
  cases pairs with
  | nil => rfl
  | @cons _ low _ _ _ _ _ second _ =>
    have digit := checkHexChar_digit second
    have notSmall : asciiByte low ≠ 0x78 := by
      intro marker
      rw [marker] at digit
      cases digit
    have notLarge : asciiByte low ≠ 0x58 := by
      intro marker
      rw [marker] at digit
      cases digit
    simp [List.isPrefixOf, notSmall.symm, notLarge.symm]

theorem hexBody_marked {marker digits : List Char} {read : Bytes} (marks : marker ∈ markers)
    (pairs : Pairs digits read) : hexBody (String.ofList (marker ++ digits)) = digits.map asciiByte := by
  have spelled := asBytes_marked marks pairs
  simp only [markers, List.mem_cons, List.not_mem_nil, or_false] at marks
  rw [hexBody, spelled]
  rcases marks with rfl | rfl | rfl
  · rw [pairs.unmarked spelled]
    rfl
  · rw [startsWith0x, spelled]
    rfl
  · rw [startsWith0x, spelled]
    rfl

end Text

theorem hexBody_length_even {s : String} (even : (asBytes s).length % 2 = 0) : (hexBody s).length % 2 = 0 := by
  rw [hexBody, List.length_drop]
  split <;> omega

theorem decodeHex_marked {marker digits : List Char} {read : Bytes} (marks : marker ∈ markers)
    (pairs : Pairs digits read) : decodeHex (String.ofList (marker ++ digits)) = .ok read := by
  have each : ∀ marker ∈ markers, marker.length % 2 = 0 := by decide
  have even : (asBytes (String.ofList (marker ++ digits))).length % 2 = 0 := by
    have := each marker marks
    have := pairs.length_even
    rw [asBytes_marked marks pairs, List.length_append, List.length_map, List.length_map]
    omega
  rw [decodeHex_even even, hexBody_marked marks pairs, decodeChunks_pairs _ pairs, List.nil_append]

theorem decodeHex_eq_ok_iff {s : String} {bytes : Bytes} : decodeHex s = .ok bytes ↔
    ∃ marker ∈ markers, ∃ digits, s = String.ofList (marker ++ digits) ∧ Pairs digits bytes := by
  constructor
  · intro read
    rcases Nat.mod_two_eq_zero_or_one (asBytes s).length with even | odd
    · rw [decodeHex_even even] at read
      rcases decodeChunks_cases (startsWith0x s) 0 (hexBody s) [] (hexBody_length_even even) with
        ⟨digits, found, same, pairs, ran⟩ | ⟨_, _, _, _, _, _, ran⟩
      · obtain ⟨marker, marks, split, -⟩ := exists_marker s
        rw [ran, List.nil_append] at read
        cases read
        refine ⟨marker, marks, digits, asBytes_inj ?_, pairs⟩
        rw [asBytes_marked marks pairs, split, same]
      · rw [ran] at read
        cases read
    · rw [decodeHex_odd odd] at read
      cases read
  · rintro ⟨marker, marks, digits, rfl, pairs⟩
    exact decodeHex_marked marks pairs

/-- An even text outside of the grammar is refused at its first byte that is no digit. -/
theorem decodeHex_invalid {s : String} (even : (asBytes s).length % 2 = 0) (refused : ∀ bytes, decodeHex s ≠ .ok bytes) :
    ∃ marker front byte rest, asBytes s = marker ++ front ++ byte :: rest ∧ hexBody s = front ++ byte :: rest ∧
      (∀ other ∈ front, IsHexByte other) ∧ ¬ IsHexByte byte ∧
      decodeHex s = .err (.invalidHex (Char.ofNat byte.toNat) (marker ++ front).length) := by
  obtain ⟨marker, -, split, marked⟩ := exists_marker s
  rcases decodeChunks_cases (startsWith0x s) 0 (hexBody s) [] (hexBody_length_even even) with
    ⟨_, found, _, _, ran⟩ | ⟨front, byte, rest, same, before, other, ran⟩
  · exact (refused _ ((decodeHex_even even).trans ran)).elim
  · refine ⟨marker.map asciiByte, front, byte, rest, ?_, same, before, other, ?_⟩
    · rw [split, same, List.append_assoc]
    · rw [decodeHex_even even, ran, List.length_append, List.length_map, marked]
      rfl

/-- What is written for a byte is a pair of digits for it. -/
theorem pairs_writeByte (upper : Bool) (bytes : Bytes) : Pairs (bytes.flatMap (writeByte upper)) bytes := by
  induction bytes with
  | nil => exact .nil
  | cons byte rest ih =>
    have low : byte.toNat % 16 < 16 := Nat.mod_lt _ (by decide)
    have high : byte.toNat / 16 < 16 := by
      have := byte.toNat_lt
      omega
    have same : UInt8.ofNat (16 * (byte.toNat / 16) + byte.toNat % 16) = byte := by
      rw [Nat.div_add_mod, UInt8.ofNat_toNat]
    rw [List.flatMap_cons]
    cases upper
    · have pairs := Pairs.cons ⟨high, .inl rfl⟩ ⟨low, .inl rfl⟩ ih
      rwa [same] at pairs
    · have pairs := Pairs.cons ⟨high, .inr rfl⟩ ⟨low, .inr rfl⟩ ih
      rwa [same] at pairs

theorem FixedBytes.fromStr_writeHex {size : Nat} (marked upper : Bool) (a : FixedBytes size) :
    fromStr (writeHex marked upper a) = .ok a := by
  have marks : (if marked then ['0', 'x'] else []) ∈ markers := by cases marked <;> decide
  rw [fromStr, writeHex, decodeHex_marked marks (pairs_writeByte upper a.bytes), Outcome.ok_bind, tryFrom_bytes]

theorem decodeHex_grammar :
    (∀ s : String,
      (∀ bytes, decodeHex s = .ok bytes ↔
        ∃ marker ∈ markers, ∃ digits, s = String.ofList (marker ++ digits) ∧ Pairs digits bytes) ∧
      ((asBytes s).length % 2 = 1 → decodeHex s = .err (.oddHexLength (asBytes s).length)) ∧
      ((asBytes s).length % 2 = 0 → (∀ bytes, decodeHex s ≠ .ok bytes) →
        ∃ marker front byte rest, asBytes s = marker ++ front ++ byte :: rest ∧ hexBody s = front ++ byte :: rest ∧
          (∀ other ∈ front, IsHexByte other) ∧ ¬ IsHexByte byte ∧
          decodeHex s = .err (.invalidHex (Char.ofNat byte.toNat) (marker ++ front).length))) ∧
    ∀ (size : Nat) (a : FixedBytes size), FixedBytes.fromStr a.display = .ok a ∧
      ∀ alternate, FixedBytes.fromStr (a.lowerHex alternate) = .ok a ∧
        FixedBytes.fromStr (a.upperHex alternate) = .ok a :=
  ⟨fun _ => ⟨fun _ => decodeHex_eq_ok_iff, decodeHex_odd, decodeHex_invalid⟩,
    fun _ a => ⟨a.fromStr_writeHex true false,
      fun alternate => ⟨a.fromStr_writeHex alternate false, a.fromStr_writeHex alternate true⟩⟩⟩

/-- A text of odd length is refused for its length although it also has a wrong letter. -/
theorem decodeHex_grammar_refusals :
    decodeHex "0xGG4" = .err (.oddHexLength 5) ∧
    ∃ marker front byte rest, asBytes "0x12G4" = marker ++ front ++ byte :: rest ∧
      hexBody "0x12G4" = front ++ byte :: rest ∧ (∀ other ∈ front, IsHexByte other) ∧ ¬ IsHexByte byte ∧
      decodeHex "0x12G4" = .err (.invalidHex (Char.ofNat byte.toNat) (marker ++ front).length) := by
  have refused : decodeHex "0x12G4" = .err (.invalidHex 'G' 4) := by decide +kernel
  refine ⟨(decodeHex_grammar.1 "0xGG4").2.1 (by decide +kernel), (decodeHex_grammar.1 "0x12G4").2.2 (by decide +kernel) ?_⟩
  intro bytes read
  rw [refused] at read
  cases read

end Grammar

end MiniEthNode
