import MiniEthNode.Trie.Binding

namespace MiniEthNode
open Rust Radix

/-- The positions of a branch that hold something, its own value included. -/
def occupiedPositions (children : Fin 16 → Option TrieNode) (value : Option Bytes) : Nat :=
  (Finset.univ.filter fun i => (children i).isSome).card + value.toList.length

/-- Nibbles below 16, no empty and no chained extension, and no branch without a choice. -/
inductive NormalForm : TrieNode → Prop
  | leaf {remainingNibbles value} : (∀ nibble ∈ remainingNibbles, nibble.toNat < 16) →
      NormalForm (.leaf remainingNibbles value)
  | extension {sharedNibbles children value} : sharedNibbles ≠ [] → (∀ nibble ∈ sharedNibbles, nibble.toNat < 16) →
      NormalForm (.branch children value) → NormalForm (.extension sharedNibbles (.branch children value))
  | branch {children value} : 2 ≤ occupiedPositions children value →
      (∀ i child, children i = some child → NormalForm child) → NormalForm (.branch children value)

theorem map_nib_small {path : List Nibble} : ∀ nibble ∈ path.map nib, nibble.toNat < 16 := by
  intro nibble member
  obtain ⟨i, _, rfl⟩ := List.mem_map.mp member
  exact nib_toNat_lt i

theorem embedChildren_isSome {children : Nibble → Option Patricia} {i : Nibble} :
    (embedChildren children i).isSome = (children i).isSome := by
  rw [embedChildren]
  cases children i <;> rfl

theorem embedChildren_eq_some {children : Nibble → Option Patricia} {i : Nibble} {node : TrieNode}
    (here : embedChildren children i = some node) : ∃ child, children i = some child ∧ node = embed child := by
  rw [embedChildren] at here
  cases slot : children i with
  | none =>
    rw [slot] at here
    cases here
  | some child =>
    rw [slot] at here
    exact ⟨child, rfl, (Option.some.inj here).symm⟩

/-- A choice is two positions. -/
theorem occupiedPositions_of_forks {children : Nibble → Option Patricia} {value : Option Bytes}
    (forks : Forks children value) : 2 ≤ occupiedPositions (embedChildren children) value := by
  have member {i : Nibble} (here : (children i).isSome) :
      i ∈ Finset.univ.filter fun i => (embedChildren children i).isSome := by
    rw [Finset.mem_filter, embedChildren_isSome]
    exact ⟨Finset.mem_univ i, here⟩
  rw [occupiedPositions]
  rcases forks with ⟨i, j, different, atI, atJ⟩ | ⟨held, i, atI⟩
  · have two := Finset.one_lt_card.mpr ⟨i, member atI, j, member atJ, different⟩
    omega
  · have one := Finset.card_pos.mpr ⟨i, member atI⟩
    obtain ⟨bytes, rfl⟩ := Option.isSome_iff_exists.mp held
    rw [Option.toList_some, List.length_singleton]
    omega

/-- The normal form of the library is that of the nodes. -/
theorem normalForm_embed {t : Patricia} (canonical : Canonical t) : NormalForm (embed t) := by
  induction canonical with
  | leaf =>
    rw [embed_leaf]
    exact .leaf map_nib_small
  | @extension path _ _ nonempty _ ih =>
    rw [embed_branch] at ih
    rw [embed_extension, embed_branch]
    exact .extension (by simpa using nonempty) map_nib_small ih
  | branch forks _ ih =>
    rw [embed_branch]
    refine .branch (occupiedPositions_of_forks forks) fun i node here => ?_
    obtain ⟨child, slot, rfl⟩ := embedChildren_eq_some here
    exact ih i child slot

/-- Conversely, nodes in normal form come from a tree over sixteen symbols. -/
theorem NormalForm.exists_embed {node : TrieNode} (normal : NormalForm node) : ∃ t, node = embed t := by
  induction normal with
  | @leaf _ value small =>
    obtain ⟨path, rfl⟩ := exists_map_nib small
    exact ⟨.leaf path value, (embed_leaf path value).symm⟩
  | extension _ small _ ih =>
    obtain ⟨path, rfl⟩ := exists_map_nib small
    obtain ⟨t, same⟩ := ih
    exact ⟨.extension path t, by rw [embed_extension, same]⟩
  | @branch children value _ _ ih =>
    have slot (i : Fin 16) : ∃ t, children i = embedSlot t := by
      cases here : children i with
      | none => exact ⟨none, rfl⟩
      | some child =>
        obtain ⟨t, rfl⟩ := ih i child here
        exact ⟨some t, rfl⟩
    choose trees same using slot
    refine ⟨.branch trees value, ?_⟩
    rw [embed_branch]
    exact congrArg (TrieNode.branch · value) (funext same)

/-- Every path has its hex-prefix spelling and every item its encoding. -/
theorem NormalForm.encodes {node : TrieNode} (normal : NormalForm node) (host : Host) :
    ∃ reference, encodeNode host node = .ok reference := by
  obtain ⟨t, rfl⟩ := normal.exists_embed
  rw [encodeNode, nodeBuffer_embed, Outcome.ok_bind]
  exact ⟨_, rfl⟩

/-- Insertions under keys of any lengths stay in range and leave a tree in normal form, and a tree in
normal form can be encoded. -/
theorem insertMany_normalForm {entries : List (Bytes × Bytes)} (nonempty : ∀ entry ∈ entries, entry.1 ≠ []) :
    ∃ trie, MerkleTrie.new.insertMany entries = .ok trie ∧ (entries ≠ [] → trie.root.isSome) ∧
      ∀ node, trie.root = some node → NormalForm node ∧ ∀ host, ∃ reference, encodeNode host node = .ok reference := by
  refine ⟨⟨embedSlot (insertWords none entries)⟩, insertMany_new nonempty, fun several => ?_, fun node root => ?_⟩
  · obtain ⟨front, last, rfl⟩ := List.eq_nil_or_concat entries |>.resolve_left several
    rw [List.concat_eq_append, insertWords_append]
    rfl
  · cases reached : insertWords none entries with
    | none =>
      rw [reached] at root
      cases root
    | some t =>
      rw [reached] at root
      obtain rfl := Option.some.inj root
      have normal := normalForm_embed (canonical_insertWords (by simp) reached)
      exact ⟨normal, normal.encodes⟩

/-- A key, a longer one that starts with it, and one that leaves both at the first nibble. -/
theorem insertMany_normalForm_nested : ∃ trie node,
    MerkleTrie.new.insertMany [([0x12], [1]), ([0x12, 0x34], [2]), ([0x56], [3])] = .ok trie ∧
      trie.root = some node ∧ NormalForm node := by
  have nonempty : ∀ entry ∈ ([([0x12], [1]), ([0x12, 0x34], [2]), ([0x56], [3])] : List (Bytes × Bytes)),
      entry.1 ≠ [] := by decide
  obtain ⟨trie, inserted, occupied, normal⟩ := insertMany_normalForm nonempty
  obtain ⟨node, root⟩ := Option.isSome_iff_exists.mp (occupied (by decide))
  exact ⟨trie, node, inserted, root, (normal node root).1⟩

end MiniEthNode
