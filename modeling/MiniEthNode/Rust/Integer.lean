import Mathlib.Data.List.Induction
import Mathlib.Data.Nat.Digits.Defs
import Mathlib.Tactic.Ring
import MiniEthNode.Rust.Outcome

namespace Rust

abbrev U64 : Type := BitVec 64
abbrev U128 : Type := BitVec 128
abbrev Bytes : Type := List UInt8

section Arithmetic
variable {ε : Type} {w : Nat}

def checkedAdd (a b : BitVec w) : Option (BitVec w) :=
  if a.toNat + b.toNat < 2 ^ w then some (a + b) else none

def checkedSub (a b : BitVec w) : Option (BitVec w) :=
  if b.toNat ≤ a.toNat then some (a - b) else none

def checkedMul (a b : BitVec w) : Option (BitVec w) :=
  if a.toNat * b.toNat < 2 ^ w then some (a * b) else none

/-- The plain `+`. It panics on overflow in a build with overflow checks and
wraps in a build without. -/
def add (overflowChecks : Bool) (a b : BitVec w) : Outcome ε (BitVec w) :=
  match checkedAdd a b with
  | some c => .ok c
  | none => if overflowChecks then .panic else .ok (a + b)

theorem checkedAdd_eq_some {a b c : BitVec w} :
    checkedAdd a b = some c ↔ a.toNat + b.toNat = c.toNat := by
  unfold checkedAdd
  split
  · rename_i fits
    rw [Option.some.injEq, ← BitVec.toNat_inj, BitVec.toNat_add, Nat.mod_eq_of_lt fits]
  · rename_i large
    have bound := c.isLt
    simp only [reduceCtorEq, false_iff]
    omega

theorem checkedSub_eq_some {a b c : BitVec w} :
    checkedSub a b = some c ↔ c.toNat + b.toNat = a.toNat := by
  unfold checkedSub
  split
  · rename_i fits
    rw [Option.some.injEq, ← BitVec.toNat_inj, BitVec.toNat_sub_of_le fits]
    omega
  · simp only [reduceCtorEq, false_iff]
    omega

theorem checkedMul_eq_some {a b c : BitVec w} :
    checkedMul a b = some c ↔ a.toNat * b.toNat = c.toNat := by
  unfold checkedMul
  split
  · rename_i fits
    rw [Option.some.injEq, ← BitVec.toNat_inj, BitVec.toNat_mul, Nat.mod_eq_of_lt fits]
  · rename_i large
    have bound := c.isLt
    simp only [reduceCtorEq, false_iff]
    omega

theorem checkedAdd_eq_none {a b : BitVec w} : checkedAdd a b = none ↔ 2 ^ w ≤ a.toNat + b.toNat := by
  unfold checkedAdd
  split <;> simp <;> omega

theorem checkedSub_eq_none {a b : BitVec w} : checkedSub a b = none ↔ a.toNat < b.toNat := by
  unfold checkedSub
  split <;> simp <;> omega

theorem checkedMul_eq_none {a b : BitVec w} : checkedMul a b = none ↔ 2 ^ w ≤ a.toNat * b.toNat := by
  unfold checkedMul
  split <;> simp <;> omega

theorem add_eq_ok {checks : Bool} {a b c : BitVec w} (sum : add (ε := ε) checks a b = .ok c) :
    c = a + b := by
  unfold add at sum
  split at sum
  · rename_i d fits
    cases sum
    unfold checkedAdd at fits
    split at fits
    · exact (Option.some.inj fits).symm
    · simp at fits
  · split at sum
    · simp at sum
    · cases sum; rfl

theorem add_ne_err {checks : Bool} {a b : BitVec w} {e : ε} : add checks a b ≠ .err e := by
  unfold add
  split
  · simp
  · split <;> simp

theorem add_checked_eq_ok {a b c : BitVec w} (sum : add (ε := ε) true a b = .ok c) :
    a.toNat + b.toNat = c.toNat := by
  unfold add at sum
  split at sum
  · rename_i d fits
    cases sum
    exact checkedAdd_eq_some.mp fits
  · simp at sum

theorem add_eq_panic_iff {ε : Type} {w : Nat} {checks : Bool} {a b : BitVec w} :
    add (ε := ε) checks a b = .panic ↔ checks = true ∧ 2 ^ w ≤ a.toNat + b.toNat := by
  unfold add checkedAdd
  by_cases fits : a.toNat + b.toNat < 2 ^ w
  · simp [fits]
  · cases checks <;> simp [fits]
    omega

theorem add_of_fits {checks : Bool} {a b : BitVec w} (fits : checks = true → a.toNat + b.toNat < 2 ^ w) :
    add (ε := ε) checks a b = .ok (a + b) := by
  unfold add checkedAdd
  by_cases small : a.toNat + b.toNat < 2 ^ w
  · simp [small]
  · have unchecked : checks = false := Bool.not_eq_true _ ▸ fun checked => small (fits checked)
    simp [small, unchecked]

end Arithmetic

section Lengths
variable {ε : Type}

/-- A sum of lengths, which are `usize`. An overflow counts as a panic in every build profile:
where lengths are added, the proofs show that there is none. -/
def usizeAdd (a b : Nat) : Outcome ε Nat :=
  if a + b < 2 ^ 64 then .ok (a + b) else .panic

def usizeSub (a b : Nat) : Outcome ε Nat :=
  if b ≤ a then .ok (a - b) else .panic

/-- A difference of bytes, as a length. -/
def byteSub (a b : UInt8) : Outcome ε Nat :=
  if b ≤ a then .ok (a.toNat - b.toNat) else .panic

theorem usizeAdd_ok {a b : Nat} (fits : a + b < 2 ^ 64) : (usizeAdd a b : Outcome ε Nat) = .ok (a + b) :=
  if_pos fits

theorem usizeSub_ok {a b : Nat} (fits : b ≤ a) : (usizeSub a b : Outcome ε Nat) = .ok (a - b) :=
  if_pos fits

theorem byteSub_ok {a b : UInt8} (fits : b ≤ a) : (byteSub a b : Outcome ε Nat) = .ok (a.toNat - b.toNat) :=
  if_pos fits

end Lengths

section Bits

/-- `leading_zeros` of a number that occupies `width` bits. -/
def leadingZeros : Nat → Nat → Nat
  | 0, _ => 0
  | width + 1, value => if value.testBit width then 0 else leadingZeros width value + 1

def divCeil (a b : Nat) : Nat := if a % b > 0 then a / b + 1 else a / b

/-- The bits that are left stand for a number between two powers of two. -/
theorem leadingZeros_bounds {width value : Nat} (positive : 0 < value) (fits : value < 2 ^ width) :
    ∃ bits, width = leadingZeros width value + (bits + 1) ∧ 2 ^ bits ≤ value ∧ value < 2 ^ (bits + 1) := by
  induction width with
  | zero => omega
  | succ width ih =>
    rw [leadingZeros]
    split
    · rename_i top
      exact ⟨width, by omega, Nat.ge_two_pow_of_testBit top, fits⟩
    · rename_i top
      have below : value < 2 ^ width := by
        by_contra above
        have quotient : value / 2 ^ width = 1 :=
          Nat.div_eq_of_lt_le (by omega) (by rw [Nat.pow_succ] at fits; omega)
        rw [Nat.testBit_eq_decide_div_mod_eq, quotient] at top
        exact top (by decide)
      obtain ⟨bits, total, lower, upper⟩ := ih below
      exact ⟨bits, by omega, lower, upper⟩

end Bits

/-- The number a big-endian byte string stands for. -/
def beValue (bytes : Bytes) : Nat :=
  bytes.foldl (fun value byte => value * 256 + byte.toNat) 0

/-- `to_be_bytes` of a number that occupies `count` bytes. -/
def toBeBytes : Nat → Nat → Bytes
  | 0, _ => []
  | count + 1, value => toBeBytes count (value / 256) ++ [UInt8.ofNat (value % 256)]

theorem toBeBytes_length (count value : Nat) : (toBeBytes count value).length = count := by
  induction count generalizing value with
  | zero => rfl
  | succ count ih => simp [toBeBytes, ih]

theorem beValue_append_singleton (bytes : Bytes) (byte : UInt8) :
    beValue (bytes ++ [byte]) = beValue bytes * 256 + byte.toNat := by
  simp [beValue]

theorem beValue_toBeBytes (count value : Nat) : beValue (toBeBytes count value) = value % 256 ^ count := by
  induction count generalizing value with
  | zero => simp [toBeBytes, beValue, Nat.mod_one]
  | succ count ih =>
    rw [toBeBytes, beValue_append_singleton, ih, UInt8.toNat_ofNat_of_lt' (Nat.mod_lt _ (by decide)),
      Nat.pow_succ', Nat.mod_mul]
    ring

theorem beValue_dropWhile_zero (bytes : Bytes) : beValue (bytes.dropWhile (· == 0)) = beValue bytes := by
  induction bytes with
  | nil => rfl
  | cons byte rest ih =>
    by_cases zero : byte = 0
    · subst zero
      simpa [beValue] using ih
    · simp [zero]

theorem beValue_injOn_length {a b : Bytes} (length : a.length = b.length) (same : beValue a = beValue b) :
    a = b := by
  induction a using List.reverseRecOn generalizing b with
  | nil => exact (List.length_eq_zero_iff.mp length.symm).symm
  | append_singleton a x ih =>
    rcases List.eq_nil_or_concat b with rfl | ⟨b, y, rfl⟩
    · simp at length
    · rw [List.concat_eq_append] at length same ⊢
      simp only [List.length_append, List.length_singleton, Nat.add_right_cancel_iff] at length
      simp only [beValue_append_singleton] at same
      have smallX : x.toNat < 256 := x.toNat_lt
      have smallY : y.toNat < 256 := y.toNat_lt
      rw [ih length (by omega), UInt8.toNat_inj.mp (by omega : x.toNat = y.toNat)]

theorem beValue_replicate_zero_append (count : Nat) (bytes : Bytes) :
    beValue (List.replicate count 0 ++ bytes) = beValue bytes := by
  induction count with
  | zero => rfl
  | succ count ih => simpa [beValue, List.replicate_succ] using ih

theorem beValue_lt (bytes : Bytes) : beValue bytes < 256 ^ bytes.length := by
  induction bytes using List.reverseRecOn with
  | nil => simp [beValue]
  | append_singleton bytes byte ih =>
    have small : byte.toNat < 256 := byte.toNat_lt
    rw [beValue_append_singleton, List.length_append, List.length_singleton, Nat.pow_succ]
    omega

/-- `arr[size - bytes.len()..].copy_from_slice(bytes)` into a zeroed array of `size` bytes, and the
number that the array spells. -/
def fromBeBytes {ε : Type} (size : Nat) (bytes : Bytes) : Outcome ε Nat := do
  let start ← usizeSub size bytes.length
  .ok (beValue (List.replicate start 0 ++ bytes))

theorem fromBeBytes_ok {ε : Type} {size : Nat} {bytes : Bytes} (fits : bytes.length ≤ size) :
    (fromBeBytes size bytes : Outcome ε Nat) = .ok (beValue bytes) := by
  rw [fromBeBytes, usizeSub_ok fits, Outcome.ok_bind, beValue_replicate_zero_append]

end Rust
