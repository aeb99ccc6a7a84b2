import MiniEthNode.Trie.Insertion

namespace MiniEthNode
open Rust Rlp Radix

theorem pack_nib (high low : Nibble) : (nib high <<< 4) ||| nib low = UInt8.ofNat (16 * high.val + low.val) := by
  revert high low
  decide

/-- Induction on a list that is taken two by two. -/
theorem pairs_induct {motive : List Nibble → Prop} (nil : motive [])
    (pair : ∀ high low rest, motive rest → motive (high :: low :: rest)) :
    ∀ {path : List Nibble}, path.length % 2 = 0 → motive path
  | [], _ => nil
  | [_], even => by simp at even
  | high :: low :: rest, even => by
    have shorter : rest.length % 2 = 0 := by
      simp only [List.length_cons] at even
      omega
    exact pair high low rest (pairs_induct nil pair shorter)

theorem packPairs_map {path : List Nibble} (even : path.length % 2 = 0) :
    packPairs (path.map nib) = .ok (packNibbles path) := by
  refine pairs_induct (motive := fun path => packPairs (path.map nib) = .ok (packNibbles path)) rfl ?_ even
  intro high low rest ih
  rw [List.map_cons, List.map_cons, packPairs, ih, Outcome.ok_bind, pack_nib, packNibbles]

theorem hpEncodeWith_map (even odd : Nibble) (path : List Nibble) :
    hpEncodeWith (nib even) (nib odd) (path.map nib) =
      .ok (if path.length % 2 = 0 then packNibbles (even :: 0 :: path) else packNibbles (odd :: path)) := by
  rw [hpEncodeWith, List.length_map]
  split
  · rename_i parity
    have flag : nib even <<< 4 = UInt8.ofNat (16 * even.val + (0 : Nibble).val) := by
      revert even
      decide
    rw [packPairs_map parity, Outcome.ok_bind, packNibbles, flag]
  · rename_i parity
    rcases path with _ | ⟨first, rest⟩
    · simp at parity
    · have remaining : rest.length % 2 = 0 := by
        simp only [List.length_cons] at parity
        omega
      have head : (index ((first :: rest).map nib) 0 : Outcome TrieError UInt8) = .ok (nib first) := rfl
      have tail : (sliceFrom ((first :: rest).map nib) 1 : Outcome TrieError (List UInt8)) = .ok (rest.map nib) := by
        simp [sliceFrom]
      rw [head, Outcome.ok_bind, tail, Outcome.ok_bind, packPairs_map remaining, Outcome.ok_bind, pack_nib,
        packNibbles]

/-- `hp_encode` is the hex-prefix spelling. -/
theorem hpEncode_map (path : List Nibble) (isLeaf : Bool) :
    hpEncode (path.map nib) isLeaf = .ok (hexPrefix isLeaf path) := by
  cases isLeaf with
  | false => exact hpEncodeWith_map 0 1 path
  | true => exact hpEncodeWith_map 2 3 path

theorem encodeInto_eq (item : RlpItem) (buffer : Bytes) : encodeInto item buffer = .ok (buffer ++ serialize item) := by
  rw [encodeInto, encode_eq, Outcome.mapErr_ok]

/-- The item of a node. -/
def nodeItem (host : Host) (t : Patricia) : Item := fold (nodeAssembly host.keccak256) t

theorem nodeItem_leaf (host : Host) (path : List Nibble) (value : Bytes) :
    nodeItem host (.leaf path value) = .list [.bytes (hexPrefix true path), .bytes value] := rfl

theorem nodeItem_extension (host : Host) (path : List Nibble) (child : Patricia) :
    nodeItem host (.extension path child) =
      .list [.bytes (hexPrefix false path), reference host.keccak256 (some (nodeItem host child))] := rfl

theorem nodeItem_branch (host : Host) (children : Nibble → Option Patricia) (value : Option Bytes) :
    nodeItem host (.branch children value) = .list ((List.finRange 16).map (fun i =>
      reference host.keccak256 ((children i).map (nodeItem host))) ++ [.bytes (value.getD [])]) := by
  rw [nodeItem, fold_branch]
  rfl

theorem serialize_reference (host : Host) (item : Item) :
    serialize (reference host.keccak256 (some item)) =
      match nodeRef host (serialize item) with
      | .inline bytes => bytes
      | .hash digest => serialize (toRlpItem digest) := by
  rw [reference, nodeRef]
  split <;> rfl

/-- A loop of calls that each append to a buffer. -/
theorem foldlM_serialize {ι ε : Type} {step : Bytes → ι → Outcome ε Bytes} {item : ι → Item}
    (appends : ∀ buffer i, step buffer i = .ok (buffer ++ serialize (item i))) (xs : List ι) (buffer : Bytes) :
    xs.foldlM step buffer = .ok (buffer ++ serializeAll (xs.map item)) := by
  induction xs generalizing buffer with
  | nil => rw [List.map_nil, serializeAll, List.append_nil]; rfl
  | cons i xs ih =>
    rw [List.foldlM_cons, appends, Outcome.ok_bind, ih, List.map_cons, serializeAll, List.append_assoc]

/-- The buffer of `encode_node` is the encoding of the node's item. -/
theorem nodeBuffer_embed (host : Host) (t : Patricia) :
    nodeBuffer host (embed t) = .ok (serialize (nodeItem host t)) := by
  induction t using Tree.induct with
  | leaf path value =>
    rw [embed_leaf, nodeBuffer, hpEncode_map, Outcome.ok_bind, encodeInto_eq]
    rfl
  | extension path child ih =>
    rw [embed_extension, nodeBuffer, hpEncode_map, Outcome.ok_bind, ih, Outcome.ok_bind, nodeItem_extension,
      serialize]
    simp only [serializeAll, List.append_nil, serialize_reference]
    cases nodeRef host (serialize (nodeItem host child)) with
    | inline bytes =>
      simp only [encodeInto_eq, Outcome.ok_bind, List.nil_append, addRlpListPrefix_eq]
      rfl
    | hash digest =>
      simp only [encodeInto_eq, List.nil_append, serialize, serializeAll, List.append_nil]
      rfl
  | branch children value ih =>
    have child : ∀ buffer i, childInto host (embedChildren children i) buffer =
        .ok (buffer ++ serialize (reference host.keccak256 ((children i).map (nodeItem host)))) := by
      intro buffer i
      cases slot : children i with
      | none =>
        have empty : embedChildren children i = none := by rw [embedChildren, slot]; rfl
        rw [empty, childInto, encodeInto_eq]
        rfl
      | some child =>
        have occupied : embedChildren children i = some (embed child) := by rw [embedChildren, slot]; rfl
        rw [occupied, childInto, ih i child slot, Outcome.ok_bind, Option.map_some, serialize_reference]
        cases nodeRef host (serialize (nodeItem host child)) with
        | inline bytes => rfl
        | hash digest => exact encodeInto_eq _ _
    rw [embed_branch, nodeBuffer, foldlM_serialize child, Outcome.ok_bind, nodeItem_branch, serialize, serializeAll_append]
    cases value <;>
      simp only [encodeInto_eq, Outcome.ok_bind, List.nil_append, addRlpListPrefix_eq, Option.getD_none,
        Option.getD_some, serializeAll, List.append_nil] <;> rfl

/-- The string whose digest is the root. -/
def rootBytes (host : Host) : Option Patricia → Bytes
  | none => [0x80]
  | some t => serialize (nodeItem host t)

/-- The root hash of a trie is the digest of its root item, whatever the size of the item. -/
theorem rootHash_embedSlot (host : Host) (slot : Option Patricia) :
    (⟨embedSlot slot⟩ : MerkleTrie).rootHash host = .ok (host.keccak256 (rootBytes host slot)) := by
  cases slot with
  | none => rfl
  | some t =>
    rw [MerkleTrie.rootHash, embedSlot_some]
    simp only [encodeNode, nodeBuffer_embed, Outcome.ok_bind, nodeRef]
    split <;> rename_i chosen <;> split at chosen <;> cases chosen <;> rfl

end MiniEthNode
