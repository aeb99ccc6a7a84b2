import MiniEthNode.Trie.Root

namespace MiniEthNode
open Rust Rlp Radix

section HexPrefix

theorem nibblePath_packNibbles {path : List Nibble} (even : path.length % 2 = 0) :
    nibblePath (packNibbles path) = path := by
  refine pairs_induct (motive := fun path => nibblePath (packNibbles path) = path) rfl ?_ even
  intro high low rest ih
  have byte : (UInt8.ofNat (16 * high.val + low.val)).toNat = 16 * high.val + low.val :=
    UInt8.toNat_ofNat_of_lt' (by have := high.isLt; have := low.isLt; simp only [UInt8.size]; omega)
  have upper : (16 * high.val + low.val) / 16 = high.val := by omega
  have lower : (16 * high.val + low.val) % 16 = low.val := by omega
  rw [nibblePath] at ih ⊢
  rw [packNibbles, List.flatMap_cons, ih]
  simp only [byte, upper, lower]
  rfl

/-- The nibbles of a hex-prefix spelling are the flags and the path. -/
theorem nibblePath_hexPrefix (isLeaf : Bool) (path : List Nibble) :
    nibblePath (hexPrefix isLeaf path) =
      if path.length % 2 = 0 then (if isLeaf then 2 else 0) :: 0 :: path
      else ((if isLeaf then 2 else 0) + 1) :: path := by
  rw [hexPrefix]
  split <;> exact nibblePath_packNibbles (by simp only [List.length_cons]; omega)

theorem hexPrefix_inj {isLeaf isLeaf' : Bool} {path path' : List Nibble}
    (same : hexPrefix isLeaf path = hexPrefix isLeaf' path') : isLeaf = isLeaf' ∧ path = path' := by
  have nibbles := congrArg nibblePath same
  rw [nibblePath_hexPrefix, nibblePath_hexPrefix] at nibbles
  by_cases even : path.length % 2 = 0 <;> by_cases even' : path'.length % 2 = 0 <;>
    simp only [even, even', if_true, if_false, List.cons.injEq] at nibbles <;>
    cases isLeaf <;> cases isLeaf' <;> simp_all

theorem packNibbles_length {path : List Nibble} (even : path.length % 2 = 0) :
    (packNibbles path).length = path.length / 2 := by
  refine pairs_induct (motive := fun path => (packNibbles path).length = path.length / 2) rfl ?_ even
  intro high low rest ih
  rw [packNibbles, List.length_cons, ih, List.length_cons, List.length_cons]
  omega

/-- The flags fill a byte of their own or share it with the first nibble. -/
theorem hexPrefix_length (isLeaf : Bool) (path : List Nibble) :
    (hexPrefix isLeaf path).length = 1 + path.length / 2 := by
  rw [hexPrefix]
  split
  · rw [packNibbles_length (by simp only [List.length_cons]; omega), List.length_cons, List.length_cons]
    omega
  · rw [packNibbles_length (by simp only [List.length_cons]; omega), List.length_cons]
    omega

theorem exists_map_nib {nibbles : List UInt8} (small : ∀ nibble ∈ nibbles, nibble.toNat < 16) :
    ∃ path : List Nibble, nibbles = path.map nib := by
  induction nibbles with
  | nil => exact ⟨[], rfl⟩
  | cons nibble rest ih =>
    obtain ⟨path, rfl⟩ := ih fun other member => small other (List.mem_cons_of_mem _ member)
    refine ⟨⟨nibble.toNat, small nibble List.mem_cons_self⟩ :: path, ?_⟩
    rw [List.map_cons, nib, UInt8.ofNat_toNat]

/-- Paths and flags are told apart by their encoding, whose length is that of the path. -/
theorem hpEncode_injective :
    (∀ (nibbles nibbles' : List UInt8) (isLeaf isLeaf' : Bool), (∀ nibble ∈ nibbles, nibble.toNat < 16) →
      (∀ nibble ∈ nibbles', nibble.toNat < 16) → hpEncode nibbles isLeaf = hpEncode nibbles' isLeaf' →
        nibbles = nibbles' ∧ isLeaf = isLeaf') ∧
    ∀ (nibbles : List UInt8) (isLeaf : Bool), (∀ nibble ∈ nibbles, nibble.toNat < 16) →
      ∃ bytes, hpEncode nibbles isLeaf = .ok bytes ∧ bytes.length = 1 + nibbles.length / 2 := by
  constructor
  · intro nibbles nibbles' isLeaf isLeaf' small small' same
    obtain ⟨path, rfl⟩ := exists_map_nib small
    obtain ⟨path', rfl⟩ := exists_map_nib small'
    rw [hpEncode_map, hpEncode_map, Outcome.ok.injEq] at same
    obtain ⟨kinds, paths⟩ := hexPrefix_inj same
    exact ⟨by rw [paths], kinds⟩
  · intro nibbles isLeaf small
    obtain ⟨path, rfl⟩ := exists_map_nib small
    refine ⟨hexPrefix isLeaf path, hpEncode_map path isLeaf, ?_⟩
    rw [hexPrefix_length, List.length_map]

/-- An extension over three nibbles, whose encoding is that of no leaf and of no other path. -/
theorem hpEncode_injective_extension :
    hpEncode [1, 2, 3] false = .ok [0x11, 0x23] ∧
    (∃ bytes, hpEncode [1, 2, 3] false = .ok bytes ∧ bytes.length = 1 + 3 / 2) ∧
    ∀ nibbles isLeaf, (∀ nibble ∈ nibbles, nibble.toNat < 16) → hpEncode nibbles isLeaf = .ok [0x11, 0x23] →
      nibbles = [1, 2, 3] ∧ isLeaf = false := by
  have spelled : hpEncode [1, 2, 3] false = .ok [0x11, 0x23] := by decide +kernel
  have below : ∀ nibble ∈ ([1, 2, 3] : List UInt8), nibble.toNat < 16 := by decide +kernel
  refine ⟨spelled, hpEncode_injective.2 [1, 2, 3] false below, fun nibbles isLeaf small same => ?_⟩
  exact hpEncode_injective.1 nibbles [1, 2, 3] isLeaf false small below (same.trans spelled.symm)

end HexPrefix

section Hashed

/-- The buffer of a node, if `encode_node` hashes it. -/
def hashedBuffer (host : Host) (node : TrieNode) : List Bytes :=
  match nodeBuffer host node with
  | .ok bytes => if bytes.length < 32 then [] else [bytes]
  | _ => []

mutual
/-- All buffers that `encode_node` hashes at a node and below it. -/
def hashedBuffers (host : Host) : TrieNode → List Bytes
  | .leaf remainingNibbles value => hashedBuffer host (.leaf remainingNibbles value)
  | .extension sharedNibbles child =>
    hashedBuffer host (.extension sharedNibbles child) ++ hashedBuffers host child
  | .branch children value =>
    hashedBuffer host (.branch children value) ++
      (List.finRange 16).flatMap fun i => hashedSlot host (children i)

def hashedSlot (host : Host) : Option TrieNode → List Bytes
  | none => []
  | some node => hashedBuffers host node
end

/-- The node encodings whose digest `root_hash` takes: the root in any case, and every other
node that is not inlined. The empty trie hashes the encoding of the empty string. -/
def MerkleTrie.hashed (host : Host) (trie : MerkleTrie) : List Bytes :=
  match trie.root with
  | none => [[0x80]]
  | some node =>
    match nodeBuffer host node with
    | .ok bytes => bytes :: hashedBuffers host node
    | _ => hashedBuffers host node

theorem hashedBuffer_embed {host : Host} {t : Patricia} (long : ¬ (serialize (nodeItem host t)).length < 32) :
    serialize (nodeItem host t) ∈ hashedBuffer host (embed t) := by
  rw [hashedBuffer, nodeBuffer_embed]
  simp [long]

theorem mem_hashedBuffers_self {host : Host} {t : Patricia} (long : ¬ (serialize (nodeItem host t)).length < 32) :
    serialize (nodeItem host t) ∈ hashedBuffers host (embed t) := by
  have own := hashedBuffer_embed long
  cases t with
  | leaf path value => exact own
  | extension path child => exact List.mem_append_left _ own
  | branch children value => exact List.mem_append_left _ own

theorem mem_hashedBuffers_extension {host : Host} {path : List Nibble} {child : Patricia} {bytes : Bytes}
    (member : bytes ∈ hashedBuffers host (embed child)) :
    bytes ∈ hashedBuffers host (embed (.extension path child)) :=
  List.mem_append_right _ member

theorem mem_hashedBuffers_branch {host : Host} {children : Nibble → Option Patricia} {value : Option Bytes}
    {i : Nibble} {child : Patricia} {bytes : Bytes} (here : children i = some child)
    (member : bytes ∈ hashedBuffers host (embed child)) :
    bytes ∈ hashedBuffers host (embed (.branch children value)) := by
  refine List.mem_append_right _ (List.mem_flatMap.mpr ⟨i, List.mem_finRange i, ?_⟩)
  show bytes ∈ hashedSlot host (embedSlot (children i))
  rw [here]
  exact member

end Hashed

section Bounds

/-- A tree in normal form with no empty value and with words and values of moderate length. -/
structure Fits (t : Patricia) : Prop where
  canonical : Canonical t
  sized : ∀ word value, find t word = some value → value ≠ [] ∧ word.length < 2 ^ 32 ∧ value.length < 2 ^ 32

theorem Fits.below_extension {path : List Nibble} {child : Patricia} (fits : Fits (.extension path child)) :
    Fits child ∧ path.length < 2 ^ 32 := by
  obtain ⟨children, value, rfl, canonical⟩ := canonical_child fits.canonical
  have sized : ∀ word found, find (.branch children value) word = some found →
      found ≠ [] ∧ path.length + word.length < 2 ^ 32 ∧ found.length < 2 ^ 32 := by
    intro word found here
    have above := fits.sized (path ++ word) found (by rw [find_extension_append, here])
    rwa [List.length_append] at above
  obtain ⟨word, found, here⟩ := canonical.nonempty
  have bound := sized word found here
  refine ⟨⟨canonical, fun word found here => ?_⟩, by omega⟩
  have each := sized word found here
  exact ⟨each.1, by omega, each.2.2⟩

theorem Fits.below_branch {children : Nibble → Option Patricia} {value : Option Bytes} {i : Nibble}
    {child : Patricia} (fits : Fits (.branch children value)) (here : children i = some child) : Fits child := by
  obtain ⟨canonical, sized⟩ := fits
  cases canonical with
  | branch _ each =>
    refine ⟨each i child here, fun word found below => ?_⟩
    have above := sized (i :: word) found (by rw [find_branch_cons, here, findSlot_some, below])
    rw [List.length_cons] at above
    exact ⟨above.1, by omega, above.2.2⟩

theorem reference_length_le (keccak256 : Bytes → B256) (slot : Option Item) :
    (serialize (reference keccak256 slot)).length ≤ 41 := by
  cases slot with
  | none => exact (by decide : (serialize (.bytes [])).length ≤ 41)
  | some item =>
    rw [reference]
    split
    · omega
    · have digest := (keccak256 (serialize item)).length_eq
      exact (serialize_bytes_length_le _ (by omega)).trans (by omega)

/-- Every node of such a tree has an encoding far below the limit of the format. -/
theorem Fits.encoding_lt (host : Host) {t : Patricia} (fits : Fits t) :
    (serialize (nodeItem host t)).length < 2 ^ 64 := by
  cases t with
  | leaf path value =>
    obtain ⟨_, word, held⟩ := fits.sized path value (by simp)
    have spelled := hexPrefix_length true path
    have first := serialize_bytes_length_le (hexPrefix true path) (by omega)
    have second := serialize_bytes_length_le value (by omega)
    have items : (serializeAll [.bytes (hexPrefix true path), .bytes value]).length < 2 ^ 34 := by
      simp only [serializeAll, List.length_append, List.length_nil]
      omega
    exact (serialize_list_length_le (items.trans (by decide))).trans_lt (by omega)
  | extension path child =>
    have word := fits.below_extension.2
    have spelled := hexPrefix_length false path
    have first := serialize_bytes_length_le (hexPrefix false path) (by omega)
    have second := reference_length_le host.keccak256 (some (nodeItem host child))
    have items : (serializeAll [.bytes (hexPrefix false path),
        reference host.keccak256 (some (nodeItem host child))]).length < 2 ^ 34 := by
      simp only [serializeAll, List.length_append, List.length_nil]
      omega
    exact (serialize_list_length_le (items.trans (by decide))).trans_lt (by omega)
  | branch children value =>
    have held : (value.getD []).length < 2 ^ 32 := by
      cases value with
      | none => decide
      | some value => exact (fits.sized [] value rfl).2.2
    have last := serialize_bytes_length_le (value.getD []) (by omega)
    have each : ∀ item ∈ (List.finRange 16).map (fun i => reference host.keccak256
        ((children i).map (nodeItem host))), (serialize item).length ≤ 41 := by
      intro item member
      obtain ⟨i, _, rfl⟩ := List.mem_map.mp member
      exact reference_length_le _ _
    have slots := serializeAll_length_le each
    rw [List.length_map, List.length_finRange] at slots
    have items : (serializeAll ((List.finRange 16).map (fun i => reference host.keccak256
        ((children i).map (nodeItem host))) ++ [.bytes (value.getD [])])).length < 2 ^ 34 := by
      simp only [serializeAll_append, serializeAll, List.length_append, List.length_nil]
      omega
    have item := nodeItem_branch host children value
    rw [item]
    exact (serialize_list_length_le (items.trans (by decide))).trans_lt (by omega)

end Bounds

section Injectivity
variable {host : Host}

/-- Two different strings with one digest, hashed at or below the two nodes. -/
def Collision (host : Host) (t u : Patricia) : Prop :=
  ∃ x ∈ hashedBuffers host (embed t), ∃ y ∈ hashedBuffers host (embed u),
    x ≠ y ∧ host.keccak256 x = host.keccak256 y

theorem nodeItem_list (host : Host) (t : Patricia) : ∃ items, nodeItem host t = .list items := by
  cases t with
  | leaf path value => exact ⟨_, nodeItem_leaf host path value⟩
  | extension path child => exact ⟨_, nodeItem_extension host path child⟩
  | branch children value => exact ⟨_, nodeItem_branch host children value⟩

/-- A reference to a node is not the mark of an empty slot. -/
theorem reference_some_ne_none (t : Patricia) :
    reference host.keccak256 (some (nodeItem host t)) ≠ reference host.keccak256 none := by
  obtain ⟨items, shape⟩ := nodeItem_list host t
  intro same
  rw [reference, reference] at same
  split at same
  · rw [shape] at same
    cases same
  · have empty := congrArg List.length (Item.bytes.inj same)
    rw [FixedBytes.length_eq] at empty
    exact absurd empty (by decide)

/-- Equal references are to equal nodes, or to two different encodings with one digest. -/
theorem reference_inj {t u : Patricia} (fits : Fits t) (fits' : Fits u)
    (same : reference host.keccak256 (some (nodeItem host t)) = reference host.keccak256 (some (nodeItem host u))) :
    nodeItem host t = nodeItem host u ∨ Collision host t u := by
  obtain ⟨items, shape⟩ := nodeItem_list host t
  obtain ⟨items', shape'⟩ := nodeItem_list host u
  rw [reference, reference] at same
  by_cases short : (serialize (nodeItem host t)).length < 32 <;>
    by_cases short' : (serialize (nodeItem host u)).length < 32 <;>
    simp only [short, short', if_true, if_false] at same
  · exact .inl same
  · rw [shape] at same
    cases same
  · rw [shape'] at same
    cases same
  · have digests : host.keccak256 (serialize (nodeItem host t)) = host.keccak256 (serialize (nodeItem host u)) :=
      FixedBytes.ext (Item.bytes.inj same)
    by_cases equal : serialize (nodeItem host t) = serialize (nodeItem host u)
    · exact .inl (serialize_inj (fits.encoding_lt host) (fits'.encoding_lt host) equal)
    · exact .inr ⟨_, mem_hashedBuffers_self short, _, mem_hashedBuffers_self short', equal, digests⟩

theorem Collision.extension {path path' : List Nibble} {t u : Patricia} (collision : Collision host t u) :
    Collision host (.extension path t) (.extension path' u) := by
  obtain ⟨x, atX, y, atY, different, digest⟩ := collision
  exact ⟨x, mem_hashedBuffers_extension atX, y, mem_hashedBuffers_extension atY, different, digest⟩

theorem Collision.branch {children children' : Nibble → Option Patricia} {value value' : Option Bytes} {i : Nibble}
    {t u : Patricia} (here : children i = some t) (here' : children' i = some u) (collision : Collision host t u) :
    Collision host (.branch children value) (.branch children' value') := by
  obtain ⟨x, atX, y, atY, different, digest⟩ := collision
  exact ⟨x, mem_hashedBuffers_branch here atX, y, mem_hashedBuffers_branch here' atY, different, digest⟩

theorem branchItems_inj {f g : Nibble → Item} {v v' : Bytes}
    (same : (List.finRange 16).map f ++ [Item.bytes v] = (List.finRange 16).map g ++ [Item.bytes v']) :
    (∀ i, f i = g i) ∧ v = v' := by
  obtain ⟨slots, last⟩ := List.append_inj same (by simp)
  refine ⟨fun i => List.map_inj_left.mp slots i (List.mem_finRange i), ?_⟩
  simpa using last

/-- The value of a branch can be told from the mark of an absent one. -/
theorem Fits.value_inj {children children' : Nibble → Option Patricia} {value value' : Option Bytes}
    (fits : Fits (.branch children value)) (fits' : Fits (.branch children' value'))
    (same : value.getD [] = value'.getD []) : value = value' := by
  have held : ∀ v, value = some v → v ≠ [] := fun v here => (fits.sized [] v (by rw [find_branch_nil, here])).1
  have held' : ∀ v, value' = some v → v ≠ [] := fun v here => (fits'.sized [] v (by rw [find_branch_nil, here])).1
  cases value with
  | none =>
    cases value' with
    | none => rfl
    | some v => exact absurd same.symm (held' v rfl)
  | some v =>
    cases value' with
    | none => exact absurd same (held v rfl)
    | some v' => exact congrArg some same

/-- The node format is unambiguous up to collisions of the hash function. -/
theorem nodeItem_inj {t u : Patricia} (fits : Fits t) (fits' : Fits u)
    (same : nodeItem host t = nodeItem host u) : t = u ∨ Collision host t u := by
  induction t using Tree.induct generalizing u with
  | leaf path value =>
    cases u with
    | leaf path' value' =>
      simp only [nodeItem_leaf, Item.list.injEq, List.cons.injEq, Item.bytes.injEq, and_true] at same
      exact .inl (by rw [(hexPrefix_inj same.1).2, same.2])
    | extension path' child' =>
      simp only [nodeItem_leaf, nodeItem_extension, Item.list.injEq, List.cons.injEq, Item.bytes.injEq] at same
      exact absurd (hexPrefix_inj same.1).1 (by decide)
    | branch children' value' =>
      rw [nodeItem_leaf, nodeItem_branch, Item.list.injEq] at same
      exact absurd (congrArg List.length same) (by simp)
  | extension path child ih =>
    cases u with
    | leaf path' value' =>
      simp only [nodeItem_leaf, nodeItem_extension, Item.list.injEq, List.cons.injEq, Item.bytes.injEq] at same
      exact absurd (hexPrefix_inj same.1).1 (by decide)
    | extension path' child' =>
      simp only [nodeItem_extension, Item.list.injEq, List.cons.injEq, Item.bytes.injEq, and_true] at same
      obtain ⟨inside, _⟩ := fits.below_extension
      obtain ⟨inside', _⟩ := fits'.below_extension
      rcases reference_inj inside inside' same.2 with items | collision
      · rcases ih inside inside' items with equal | collision
        · exact .inl (by rw [(hexPrefix_inj same.1).2, equal])
        · exact .inr collision.extension
      · exact .inr collision.extension
    | branch children' value' =>
      rw [nodeItem_extension, nodeItem_branch, Item.list.injEq] at same
      exact absurd (congrArg List.length same) (by simp)
  | branch children value ih =>
    cases u with
    | leaf path' value' =>
      rw [nodeItem_leaf, nodeItem_branch, Item.list.injEq] at same
      exact absurd (congrArg List.length same) (by simp)
    | extension path' child' =>
      rw [nodeItem_extension, nodeItem_branch, Item.list.injEq] at same
      exact absurd (congrArg List.length same) (by simp)
    | branch children' value' =>
      rw [nodeItem_branch, nodeItem_branch, Item.list.injEq] at same
      obtain ⟨slots, values⟩ := branchItems_inj same
      by_cases equal : children = children'
      · exact .inl (by rw [equal, fits.value_inj fits' values])
      · obtain ⟨i, different⟩ := Function.ne_iff.mp equal
        have slot := slots i
        cases here : children i with
        | none =>
          cases here' : children' i with
          | none => exact absurd (here.trans here'.symm) different
          | some b =>
            rw [here, here'] at slot
            exact absurd slot.symm (reference_some_ne_none b)
        | some a =>
          cases here' : children' i with
          | none =>
            rw [here, here'] at slot
            exact absurd slot (reference_some_ne_none a)
          | some b =>
            rw [here, here'] at slot
            have inside := fits.below_branch here
            have inside' := fits'.below_branch here'
            rcases reference_inj inside inside' slot with items | collision
            · rcases ih i a here inside inside' items with same | collision
              · exact absurd (here.trans (same ▸ here'.symm)) different
              · exact .inr (collision.branch here here')
            · exact .inr (collision.branch here here')

theorem rootBytes_mem_hashed (slot : Option Patricia) :
    rootBytes host slot ∈ (⟨embedSlot slot⟩ : MerkleTrie).hashed host := by
  cases slot with
  | none => exact List.mem_singleton_self _
  | some t =>
    simp only [MerkleTrie.hashed, embedSlot_some, nodeBuffer_embed]
    exact List.mem_cons_self

theorem hashedBuffers_subset_hashed {t : Patricia} {bytes : Bytes}
    (member : bytes ∈ hashedBuffers host (embed t)) :
    bytes ∈ (⟨embedSlot (some t)⟩ : MerkleTrie).hashed host := by
  simp only [MerkleTrie.hashed, embedSlot_some, nodeBuffer_embed]
  exact List.mem_cons_of_mem _ member

/-- Equal roots are those of equal trees, unless the hash function collides on what was hashed. -/
theorem root_inj (host : Host) {slot slot' : Option Patricia} (fits : ∀ t, slot = some t → Fits t)
    (fits' : ∀ t, slot' = some t → Fits t)
    (same : host.keccak256 (rootBytes host slot) = host.keccak256 (rootBytes host slot')) :
    slot = slot' ∨ ∃ x ∈ (⟨embedSlot slot⟩ : MerkleTrie).hashed host,
      ∃ y ∈ (⟨embedSlot slot'⟩ : MerkleTrie).hashed host, x ≠ y ∧ host.keccak256 x = host.keccak256 y := by
  by_cases equal : rootBytes host slot = rootBytes host slot'
  · have empty_ne : ∀ t, Fits t → rootBytes host none ≠ rootBytes host (some t) := by
      intro t fits same
      obtain ⟨items, shape⟩ := nodeItem_list host t
      have bound := fits.encoding_lt host
      rw [rootBytes, rootBytes, show ([0x80] : Bytes) = serialize (.bytes []) by decide] at same
      have items := serialize_inj (by decide) bound same
      rw [shape] at items
      cases items
    cases slot with
    | none =>
      cases slot' with
      | none => exact .inl rfl
      | some u => exact absurd equal (empty_ne u (fits' u rfl))
    | some t =>
      cases slot' with
      | none => exact absurd equal.symm (empty_ne t (fits t rfl))
      | some u =>
        have items := serialize_inj ((fits t rfl).encoding_lt host) ((fits' u rfl).encoding_lt host) equal
        rcases nodeItem_inj (fits t rfl) (fits' u rfl) items with rfl | ⟨x, atX, y, atY, different, digest⟩
        · exact .inl rfl
        · exact .inr ⟨x, hashedBuffers_subset_hashed atX, y, hashedBuffers_subset_hashed atY, different, digest⟩
  · exact .inr ⟨_, rootBytes_mem_hashed slot, _, rootBytes_mem_hashed slot', equal, same⟩

end Injectivity

end MiniEthNode
