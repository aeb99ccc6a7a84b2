import Mathlib.Data.List.FinRange
import MiniEthNode.Format.Rlp
import MiniEthNode.Radix.Composition
import MiniEthNode.Types.Primitive

namespace MiniEthNode
open Rust Rlp Radix

abbrev Nibble : Type := Fin 16

/-- Two nibbles to a byte, the high one first. -/
def packNibbles : List Nibble → Bytes
  | high :: low :: rest => UInt8.ofNat (16 * high.val + low.val) :: packNibbles rest
  | _ => []

/-- The hex-prefix spelling of a path. The first nibble tells a leaf from an extension and
an odd length from an even one; an even path is padded by one more nibble. -/
def hexPrefix (isLeaf : Bool) (path : List Nibble) : Bytes :=
  let kind : Nibble := if isLeaf then 2 else 0
  if path.length % 2 = 0 then packNibbles (kind :: 0 :: path) else packNibbles ((kind + 1) :: path)

/-- What stands for a child inside its parent: nothing, the child itself while it is
shorter than a digest, or else its digest. -/
def reference (keccak256 : Bytes → B256) : Option Item → Item
  | none => .bytes []
  | some item =>
    if (serialize item).length < 32 then item else .bytes (keccak256 (serialize item)).bytes

/-- The items of the three kinds of node. -/
def nodeAssembly (keccak256 : Bytes → B256) : Assembly Nibble Bytes Item where
  leaf path value := .list [.bytes (hexPrefix true path), .bytes value]
  extension path child := .list [.bytes (hexPrefix false path), reference keccak256 (some child)]
  branch children value :=
    .list ((List.finRange 16).map (fun i => reference keccak256 (children i)) ++ [.bytes (value.getD [])])

/-- The root of a set of entries, each a path of nibbles with its value. -/
noncomputable def trieRoot (keccak256 : Bytes → B256) (entries : Finset (List Nibble × Bytes)) : B256 :=
  match compose (nodeAssembly keccak256) entries with
  | none => keccak256 [0x80]
  | some item => keccak256 (serialize item)

end MiniEthNode
