import MiniEthNode.Radix.Insert
import MiniEthNode.Trie.Node
import MiniEthNode.Trie.Specification

namespace MiniEthNode
open Rust Radix

/-- The byte in which the code keeps a nibble. -/
def nib (i : Nibble) : UInt8 := UInt8.ofNat i.val

/-- A tree over sixteen symbols as the node structure of the code. -/
abbrev Patricia : Type := Tree Nibble Bytes

@[simp] theorem nib_toNat (i : Nibble) : (nib i).toNat = i.val :=
  UInt8.toNat_ofNat_of_lt' (i.isLt.trans (by decide))

theorem nib_toNat_lt (i : Nibble) : (nib i).toNat < 16 := by
  rw [nib_toNat]
  exact i.isLt

theorem slot_nib (i : Nibble) : (⟨(nib i).toNat, nib_toNat_lt i⟩ : Fin 16) = i := Fin.ext (nib_toNat i)

theorem nib_injective : Function.Injective nib := by
  intro i j same
  have values := congrArg UInt8.toNat same
  rw [nib_toNat, nib_toNat] at values
  exact Fin.ext values

theorem map_nib_injective : Function.Injective (List.map nib) := List.map_injective_iff.mpr nib_injective

/-- The nibbles of a key, high half first. -/
def nibblePath (bytes : Bytes) : List Nibble :=
  bytes.flatMap fun byte =>
    [⟨byte.toNat / 16, Nat.div_lt_of_lt_mul byte.toNat_lt⟩, ⟨byte.toNat % 16, Nat.mod_lt _ (by decide)⟩]

theorem bytesToNibbles_eq (bytes : Bytes) : bytesToNibbles bytes = (nibblePath bytes).map nib := by
  induction bytes with
  | nil => rfl
  | cons byte rest ih =>
    have high : byte >>> 4 = UInt8.ofNat (byte.toNat / 16) := by
      refine UInt8.toNat_inj.mp ?_
      rw [UInt8.toNat_ofNat_of_lt' (Nat.lt_of_le_of_lt (Nat.div_le_self _ _) byte.toNat_lt), UInt8.toNat_shiftRight]
      exact Nat.shiftRight_eq_div_pow byte.toNat 4
    have low : byte &&& 0x0f = UInt8.ofNat (byte.toNat % 16) := by
      refine UInt8.toNat_inj.mp ?_
      rw [UInt8.toNat_ofNat_of_lt' (Nat.lt_of_le_of_lt (Nat.mod_le _ _) byte.toNat_lt), UInt8.toNat_and]
      exact Nat.and_two_pow_sub_one_eq_mod byte.toNat 4
    rw [bytesToNibbles] at ih ⊢
    rw [List.flatMap_cons, ih, high, low]
    rfl

theorem nibblePath_injective : Function.Injective nibblePath := by
  intro a
  induction a with
  | nil =>
    intro b same
    cases b with
    | nil => rfl
    | cons byte rest => simp [nibblePath] at same
  | cons byte rest ih =>
    intro b same
    cases b with
    | nil => simp [nibblePath] at same
    | cons byte' rest' =>
      simp only [nibblePath, List.flatMap_cons, List.cons_append, List.nil_append, List.cons.injEq,
        Fin.mk.injEq] at same
      have bytes : byte = byte' := UInt8.toNat_inj.mp (by omega)
      rw [bytes, ih same.2.2]

theorem nibblePath_length (bytes : Bytes) : (nibblePath bytes).length = 2 * bytes.length := by
  induction bytes with
  | nil => rfl
  | cons byte rest ih =>
    rw [nibblePath] at ih ⊢
    rw [List.flatMap_cons, List.length_append, ih, List.length_cons]
    simp only [List.length_cons, List.length_nil]
    omega

mutual
/-- The node of the code for a tree over nibbles. -/
def embed : Patricia → TrieNode
  | .leaf path value => .leaf (path.map nib) value
  | .extension path child => .extension (path.map nib) (embed child)
  | .branch children value => .branch (fun i => embedSlot (children i)) value

def embedSlot : Option Patricia → Option TrieNode
  | none => none
  | some t => some (embed t)
end

def embedChildren (children : Nibble → Option Patricia) : Fin 16 → Option TrieNode :=
  fun i => embedSlot (children i)

@[simp] theorem embed_leaf (path : List Nibble) (value : Bytes) :
    embed (.leaf path value) = .leaf (path.map nib) value := rfl

@[simp] theorem embed_extension (path : List Nibble) (child : Patricia) :
    embed (.extension path child) = .extension (path.map nib) (embed child) := rfl

@[simp] theorem embed_branch (children : Nibble → Option Patricia) (value : Option Bytes) :
    embed (.branch children value) = .branch (embedChildren children) value := rfl

@[simp] theorem embedSlot_some (t : Patricia) : embedSlot (some t) = some (embed t) := rfl

theorem noChildren_eq : noChildren = embedChildren fun _ => none := rfl

theorem embedChildren_update (children : Nibble → Option Patricia) (i : Nibble) (t : Patricia) :
    Function.update (embedChildren children) i (some (embed t)) =
      embedChildren (Function.update children i (some t)) := by
  funext j
  by_cases same : j = i
  · subst same
    simp [embedChildren]
  · simp [embedChildren, same]

@[simp] theorem setChild_embed (children : Nibble → Option Patricia) (i : Nibble) (t : Patricia) :
    setChild (embedChildren children) (nib i) (embed t) =
      .ok (embedChildren (Function.update children i (some t))) := by
  rw [setChild, dif_pos (nib_toNat_lt i), slot_nib, embedChildren_update]

theorem setChild_leaf (children : Nibble → Option Patricia) (i : Nibble) (path : List Nibble) (value : Bytes) :
    setChild (embedChildren children) (nib i) (.leaf (path.map nib) value) =
      .ok (embedChildren (Function.update children i (some (.leaf path value)))) :=
  setChild_embed children i (.leaf path value)

theorem sharedPrefixLen_map (a b : List Nibble) :
    sharedPrefixLen (a.map nib) (b.map nib) = sharedLen a b := by
  induction a generalizing b with
  | nil => rfl
  | cons i a ih =>
    cases b with
    | nil => rfl
    | cons j b =>
      have rest := ih b
      simp only [sharedPrefixLen] at rest ⊢
      by_cases same : i = j
      · simp [sharedLen, same, rest]
      · simp [sharedLen, same, nib_injective.ne same]

/-- The same in the form the arms of the code meet it. -/
theorem sharedPrefixLen_split {common left right : List Nibble}
    (length : sharedLen (common ++ left) (common ++ right) = common.length) :
    sharedPrefixLen (common.map nib ++ left.map nib) (common.map nib ++ right.map nib) =
      (common.map nib).length := by
  rw [← List.map_append, ← List.map_append, sharedPrefixLen_map, length, List.length_map]

section Arms
variable {front rest rest' : List UInt8} {n n' : UInt8} {old new : Bytes}

theorem insertIntoLeaf_old_ends (shared : sharedPrefixLen front (front ++ n :: rest) = front.length) :
    insertIntoLeaf front old (front ++ n :: rest) new = (do
      let children ← setChild noChildren n (.leaf rest new)
      .ok (.branch children (some old))) := by
  rw [insertIntoLeaf, if_neg (by simp)]
  simp only [shared, if_true, index_append_length, sliceFrom_append_length_succ, Outcome.ok_bind]

theorem insertIntoLeaf_new_ends (shared : sharedPrefixLen (front ++ n :: rest) front = front.length) :
    insertIntoLeaf (front ++ n :: rest) old front new = (do
      let children ← setChild noChildren n (.leaf rest old)
      .ok (.branch children (some new))) := by
  rw [insertIntoLeaf, if_neg (by simp)]
  simp only [shared, if_true, index_append_length, sliceFrom_append_length_succ, Outcome.ok_bind]
  rw [if_neg (by simp)]

theorem insertIntoLeaf_both_go_on (different : n ≠ n')
    (shared : sharedPrefixLen (front ++ n :: rest) (front ++ n' :: rest') = front.length) :
    insertIntoLeaf (front ++ n :: rest) old (front ++ n' :: rest') new = (do
      let children ← setChild noChildren n (.leaf rest old)
      let children ← setChild children n' (.leaf rest' new)
      if front = [] then .ok (.branch children none) else .ok (.extension front (.branch children none))) := by
  rw [insertIntoLeaf, if_neg (by simp [Ne.symm different])]
  simp only [shared, index_append_length, sliceFrom_append_length_succ, sliceTo_append_length, Outcome.ok_bind,
    List.length_eq_zero_iff]
  rw [if_neg (by simp), if_neg (by simp)]

theorem splitExtension_new_ends {child : TrieNode}
    (shared : sharedPrefixLen (front ++ n :: rest) front = front.length) :
    splitExtension (front ++ n :: rest) child front new = (do
      let children ← setChild noChildren n (if rest = [] then child else .extension rest child)
      if front = [] then .ok (.branch children (some new))
      else .ok (.extension front (.branch children (some new)))) := by
  have ends : (front ++ n :: rest).length = front.length + 1 ↔ rest = [] := by simp
  simp only [splitExtension, shared, sliceTo_append_length, index_append_length, sliceFrom_append_length_succ,
    Outcome.ok_bind, if_true, ends, List.length_eq_zero_iff]
  by_cases empty : rest = [] <;> simp only [empty, if_true, if_false]

theorem splitExtension_both_go_on {child : TrieNode}
    (shared : sharedPrefixLen (front ++ n :: rest) (front ++ n' :: rest') = front.length) :
    splitExtension (front ++ n :: rest) child (front ++ n' :: rest') new = (do
      let children ← setChild noChildren n' (.leaf rest' new)
      let children ← setChild children n (if rest = [] then child else .extension rest child)
      if front = [] then .ok (.branch children none) else .ok (.extension front (.branch children none))) := by
  have ends : (front ++ n :: rest).length = front.length + 1 ↔ rest = [] := by simp
  have goesOn : ¬ (front ++ n' :: rest').length = front.length := by simp
  simp only [splitExtension, shared, sliceTo_append_length, index_append_length, sliceFrom_append_length_succ,
    Outcome.ok_bind, goesOn, if_false, ends, List.length_eq_zero_iff]
  by_cases empty : rest = [] <;> simp only [empty, if_true, if_false]

end Arms

/-- The final choice between a bare branch and an extension over it. -/
theorem ok_embed_wrap (common : List Nibble) (t : Patricia) :
    (if common.map nib = [] then Outcome.ok (embed t) else .ok (.extension (common.map nib) (embed t))) =
      (.ok (embed (wrap common t)) : Outcome TrieError TrieNode) := by
  cases common <;> rfl

theorem embed_wrap (common : List Nibble) (t : Patricia) :
    (if common.map nib = [] then embed t else .extension (common.map nib) (embed t)) = embed (wrap common t) := by
  cases common <;> rfl

/-- The arm for a leaf keeps the shared path only when both words go on after it. -/
theorem insertIntoLeaf_embed {common left right : List Nibble} (old new : Bytes)
    (length : sharedLen (common ++ left) (common ++ right) = common.length)
    (apart : ∀ i l j r, left = i :: l → right = j :: r → i ≠ j) :
    insertIntoLeaf ((common ++ left).map nib) old ((common ++ right).map nib) new =
      .ok (embed (partLeaf dropPath common left old right new)) := by
  have shared := sharedPrefixLen_split length
  rw [List.map_append, List.map_append]
  rcases left with _ | ⟨i, left⟩ <;> rcases right with _ | ⟨j, right⟩
  · rw [insertIntoLeaf, if_pos rfl, List.map_nil, List.append_nil]
    rfl
  · rw [List.map_nil, List.append_nil] at shared ⊢
    rw [List.map_cons, insertIntoLeaf_old_ends shared, noChildren_eq, setChild_leaf]
    rfl
  · rw [List.map_nil, List.append_nil] at shared ⊢
    rw [List.map_cons, insertIntoLeaf_new_ends shared, noChildren_eq, setChild_leaf]
    rfl
  · have different : nib i ≠ nib j := nib_injective.ne (apart i left j right rfl rfl)
    rw [List.map_cons, List.map_cons, insertIntoLeaf_both_go_on different shared, noChildren_eq, setChild_leaf,
      Outcome.ok_bind, setChild_leaf, Outcome.ok_bind]
    exact ok_embed_wrap common (.branch _ none)

theorem splitExtension_embed {common left right : List Nibble} {i : Nibble} (child : Patricia) (new : Bytes)
    (length : sharedLen (common ++ i :: left) (common ++ right) = common.length) :
    splitExtension ((common ++ i :: left).map nib) (embed child) ((common ++ right).map nib) new =
      .ok (embed (partExtension common i left child right new)) := by
  have shared := sharedPrefixLen_split length
  rw [List.map_append, List.map_append, List.map_cons]
  rcases right with _ | ⟨j, right⟩
  · rw [List.map_nil, List.append_nil] at shared ⊢
    rw [splitExtension_new_ends shared, embed_wrap, noChildren_eq, setChild_embed, Outcome.ok_bind]
    exact ok_embed_wrap common (.branch _ (some new))
  · rw [List.map_cons, splitExtension_both_go_on shared, embed_wrap, noChildren_eq, setChild_leaf,
      Outcome.ok_bind, setChild_embed, Outcome.ok_bind]
    exact ok_embed_wrap common (.branch _ none)

/-- Every insertion of the code succeeds, fills its slot again and is insertion into the tree with the shared
path of a split leaf dropped whenever one of the two words ends there. -/
theorem insertNode_embed (t : Patricia) (key : List Nibble) (new : Bytes) :
    insertNode (embed t) (key.map nib) new = .ok (some (embed (insertTree dropPath t key new))) := by
  induction t using Tree.induct generalizing key with
  | leaf path old =>
    obtain ⟨common, left, right, rfl, rfl, length, apart⟩ := sharedLen_split path key
    rw [insertTree_leaf _ _ _ length, embed_leaf, insertNode, insertIntoLeaf_embed old new length apart]
    rfl
  | extension path child ih =>
    obtain ⟨common, left, right, rfl, rfl, length, apart⟩ := sharedLen_split path key
    have shared := sharedPrefixLen_split length
    rw [embed_extension, insertNode]
    rcases left with _ | ⟨i, left⟩
    · rw [List.append_nil] at length ⊢
      rw [List.map_nil, List.append_nil] at shared
      rw [List.map_append, shared, if_pos rfl, sliceFrom_append_length, Outcome.ok_bind, ih,
        insertTree_extension_through _ _ _ length]
      rfl
    · rw [List.map_append, List.map_append, shared, if_neg (by simp), ← List.map_append, ← List.map_append,
        splitExtension_embed child new length, insertTree_extension_part _ _ _ length]
      rfl
  | branch children value ih =>
    cases key with
    | nil => rfl
    | cons i key =>
      rw [embed_branch, List.map_cons, insertNode, dif_pos (nib_toNat_lt i), slot_nib, insertTree_branch_cons,
        embed_branch, ← embedChildren_update]
      cases slot : children i with
      | none =>
        have atSlot : embedChildren children i = none := by rw [embedChildren, slot]; rfl
        rw [atSlot]
        rfl
      | some child =>
        have atSlot : embedChildren children i = some (embed child) := by rw [embedChildren, slot]; rfl
        rw [atSlot, recursiveInsert, ih i child slot]
        rfl

theorem recursiveInsert_embed (slot : Option Patricia) (key : List Nibble) (new : Bytes) :
    recursiveInsert (embedSlot slot) (key.map nib) new = .ok (embedSlot (some (insertSlot dropPath slot key new))) := by
  cases slot with
  | none => rfl
  | some t => exact insertNode_embed t key new

end MiniEthNode
