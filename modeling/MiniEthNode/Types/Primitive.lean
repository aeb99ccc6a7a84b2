import MiniEthNode.Rust.Integer

namespace MiniEthNode
open Rust

/-- The newtypes of `byte_array_newtype!`: exactly `size` bytes. -/
structure FixedBytes (size : Nat) where
  bytes : Bytes
  length_eq : bytes.length = size
  deriving DecidableEq

abbrev Address : Type := FixedBytes 20
abbrev B256 : Type := FixedBytes 32
abbrev Bloom : Type := FixedBytes 256

inductive ParseError where
  | wrongLength (expected actual : Nat)
  | invalidHex (character : Char) (position : Nat)
  | oddHexLength (length : Nat)
  | bitOutOfRange (bit : Nat)
  deriving DecidableEq

namespace FixedBytes
variable {size : Nat}

/-- The array that spells a number. -/
def ofNat (n : Nat) : FixedBytes size := ⟨toBeBytes size n, toBeBytes_length size n⟩

def zero : FixedBytes size := ⟨List.replicate size 0, List.length_replicate⟩

def tryFrom (value : Bytes) : Outcome ParseError (FixedBytes size) :=
  if fits : value.length = size then .ok ⟨value, fits⟩ else .err (.wrongLength size value.length)

/-- `bitor_assign`, byte by byte. -/
def bitOr (a b : FixedBytes size) : FixedBytes size :=
  ⟨a.bytes.zipWith (· ||| ·) b.bytes, by simp [a.length_eq, b.length_eq]⟩

@[ext] theorem ext {a b : FixedBytes size} (same : a.bytes = b.bytes) : a = b := by
  cases a; cases b; cases same; rfl

theorem tryFrom_bytes (a : FixedBytes size) : tryFrom a.bytes = .ok a := dif_pos a.length_eq

theorem tryFrom_eq_ok {value : Bytes} {a : FixedBytes size} (made : tryFrom value = .ok a) : a.bytes = value := by
  unfold tryFrom at made
  split at made
  · cases made
    rfl
  · cases made

theorem tryFrom_wrong {value : Bytes} (wrong : value.length ≠ size) :
    (tryFrom value : Outcome ParseError (FixedBytes size)) = .err (.wrongLength size value.length) :=
  dif_neg wrong

theorem tryFrom_ne_panic (value : Bytes) : (tryFrom value : Outcome ParseError (FixedBytes size)) ≠ .panic := by
  unfold tryFrom
  split <;> simp

/-- Byte arrays of one size are ranked injectively by the number they spell. -/
theorem beValue_injective : Function.Injective fun a : FixedBytes size => beValue a.bytes := by
  intro a b same
  exact FixedBytes.ext (beValue_injOn_length (a.length_eq.trans b.length_eq.symm) same)

end FixedBytes

end MiniEthNode
