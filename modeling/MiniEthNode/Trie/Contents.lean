import Mathlib.Data.List.Induction
import MiniEthNode.Trie.Insertion

namespace MiniEthNode
open Rust Radix

/-- The entries of a node are the words of its tree. -/
theorem mem_nodeContents_embed (t : Patricia) (path : List UInt8) (value : Bytes) :
    (path, value) ∈ nodeContents (embed t) ↔ ∃ word, path = word.map nib ∧ find t word = some value := by
  induction t using Tree.induct generalizing path with
  | leaf leafPath held =>
    simp only [embed_leaf, nodeContents, List.mem_singleton, Prod.mk.injEq, find_leaf]
    constructor
    · rintro ⟨rfl, rfl⟩
      exact ⟨leafPath, rfl, by simp⟩
    · rintro ⟨word, rfl, found⟩
      split at found
      · rename_i same
        exact ⟨by rw [same], (Option.some.inj found).symm⟩
      · simp at found
  | extension above child ih =>
    simp only [embed_extension, nodeContents, List.mem_map, Prod.mk.injEq, Prod.exists]
    constructor
    · rintro ⟨rest, _, member, rfl, rfl⟩
      obtain ⟨word, rfl, found⟩ := (ih rest).mp member
      exact ⟨above ++ word, by rw [List.map_append], by rw [find_extension_append, found]⟩
    · rintro ⟨word, rfl, found⟩
      rw [find_extension, Option.bind_eq_some_iff] at found
      obtain ⟨rest, stripped, found⟩ := found
      rw [strip_eq_some_iff] at stripped
      exact ⟨rest.map nib, value, (ih _).mpr ⟨rest, rfl, found⟩, by rw [stripped, List.map_append], rfl⟩
  | branch children held ih =>
    have each : ∀ (i : Nibble) rest, (rest, value) ∈ slotContents (embedChildren children i) ↔
        ∃ word, rest = word.map nib ∧ findSlot (children i) word = some value := by
      intro i rest
      cases slot : children i with
      | none =>
        have empty : embedChildren children i = none := by rw [embedChildren, slot]; rfl
        simp [empty, slotContents]
      | some child =>
        have occupied : embedChildren children i = some (embed child) := by rw [embedChildren, slot]; rfl
        rw [occupied, slotContents, ih i child slot]
        rfl
    simp only [embed_branch, nodeContents, List.mem_append, Option.mem_toList,
      Option.map_eq_some_iff, Prod.mk.injEq, List.mem_flatMap, List.mem_finRange, true_and, List.mem_map, Prod.exists]
    constructor
    · rintro (⟨_, rfl, rfl, rfl⟩ | ⟨i, rest, _, member, rfl, rfl⟩)
      · exact ⟨[], rfl, rfl⟩
      · obtain ⟨word, rfl, found⟩ := (each i rest).mp member
        exact ⟨i :: word, rfl, found⟩
    · rintro ⟨word, rfl, found⟩
      cases word with
      | nil => exact .inl ⟨value, found, rfl, rfl⟩
      | cons i word => exact .inr ⟨i, word.map nib, value, (each i _).mpr ⟨word, rfl, found⟩, rfl, rfl⟩

theorem mem_contents_embedSlot (slot : Option Patricia) (path : List UInt8) (value : Bytes) :
    (path, value) ∈ (⟨embedSlot slot⟩ : MerkleTrie).contents ↔
      ∃ word, path = word.map nib ∧ findSlot slot word = some value := by
  cases slot with
  | none => simp [MerkleTrie.contents, embedSlot, slotContents]
  | some t => exact mem_nodeContents_embed t path value

/-- The trees behind a sequence of insertions. -/
def insertWords (slot : Option Patricia) (entries : List (Bytes × Bytes)) : Option Patricia :=
  entries.foldl (fun slot entry => some (insertSlot dropPath slot (nibblePath entry.1) entry.2)) slot

theorem insertWords_append (slot : Option Patricia) (first rest : List (Bytes × Bytes)) :
    insertWords slot (first ++ rest) = insertWords (insertWords slot first) rest := List.foldl_append

theorem insert_embedSlot (slot : Option Patricia) {key : Bytes} (nonempty : key ≠ []) (value : Bytes) :
    (⟨embedSlot slot⟩ : MerkleTrie).insert key value =
      .ok ⟨embedSlot (some (insertSlot dropPath slot (nibblePath key) value))⟩ := by
  rw [MerkleTrie.insert, if_neg (by simpa using nonempty), bytesToNibbles_eq, recursiveInsert_embed]
  rfl

theorem insertMany_embedSlot {entries : List (Bytes × Bytes)} (nonempty : ∀ entry ∈ entries, entry.1 ≠ [])
    (slot : Option Patricia) :
    (⟨embedSlot slot⟩ : MerkleTrie).insertMany entries = .ok ⟨embedSlot (insertWords slot entries)⟩ := by
  induction entries generalizing slot with
  | nil => rfl
  | cons entry rest ih =>
    have first : entry.1 ≠ [] := nonempty entry List.mem_cons_self
    have later : ∀ entry ∈ rest, entry.1 ≠ [] := fun entry member => nonempty entry (List.mem_cons_of_mem _ member)
    rw [MerkleTrie.insertMany, List.foldlM_cons, insert_embedSlot slot first, Outcome.ok_bind]
    exact ih later _

theorem insertMany_new {entries : List (Bytes × Bytes)} (nonempty : ∀ entry ∈ entries, entry.1 ≠ []) :
    MerkleTrie.new.insertMany entries = .ok ⟨embedSlot (insertWords none entries)⟩ :=
  insertMany_embedSlot nonempty none

/-- A trie holds a map: its entries are the pairs of the map, each under the nibbles of its key. -/
def MerkleTrie.IsMap (trie : MerkleTrie) (m : HashMap Bytes Bytes) : Prop :=
  ∀ path value, (path, value) ∈ trie.contents ↔ ∃ key, path = bytesToNibbles key ∧ m.lookup key = some value

/-- The same for the tree behind it. -/
def Represents (slot : Option Patricia) (m : HashMap Bytes Bytes) : Prop :=
  ∀ word value, findSlot slot word = some value ↔ ∃ key, word = nibblePath key ∧ m.lookup key = some value

theorem isMap_embedSlot {slot : Option Patricia} {m : HashMap Bytes Bytes} :
    (⟨embedSlot slot⟩ : MerkleTrie).IsMap m ↔ Represents slot m := by
  constructor
  · intro isMap word value
    have here := isMap (word.map nib) value
    simp only [mem_contents_embedSlot, bytesToNibbles_eq, map_nib_injective.eq_iff] at here
    rw [← here]
    simp
  · intro represents path value
    rw [mem_contents_embedSlot]
    constructor
    · rintro ⟨word, rfl, found⟩
      obtain ⟨key, rfl, present⟩ := (represents word value).mp found
      exact ⟨key, (bytesToNibbles_eq key).symm, present⟩
    · rintro ⟨key, rfl, present⟩
      exact ⟨nibblePath key, bytesToNibbles_eq key, (represents _ value).mpr ⟨key, rfl, present⟩⟩

theorem Represents.find_eq {slot : Option Patricia} {m : HashMap Bytes Bytes} (represents : Represents slot m)
    (key : Bytes) : findSlot slot (nibblePath key) = m.lookup key := by
  refine Option.ext fun value => ?_
  rw [represents]
  constructor
  · rintro ⟨other, same, present⟩
    rwa [nibblePath_injective same]
  · intro present
    exact ⟨key, rfl, present⟩

theorem represents_empty : Represents none (∅ : HashMap Bytes Bytes) := by
  intro word value
  simp

/-- A trie keeps representing the map when the lookup changes at the one inserted key. -/
theorem Represents.update {slot slot' : Option Patricia} {m : HashMap Bytes Bytes} {key new : Bytes}
    (represents : Represents slot m)
    (updated : ∀ word, findSlot slot' word = if word = nibblePath key then some new else findSlot slot word) :
    Represents slot' (m.insert key new) := by
  intro word value
  rw [updated]
  by_cases same : word = nibblePath key
  · subst same
    rw [if_pos rfl, Option.some.injEq]
    constructor
    · rintro rfl
      exact ⟨key, rfl, by simp⟩
    · rintro ⟨other, path, present⟩
      rw [nibblePath_injective path] at present
      simpa using present
  · rw [if_neg same, represents]
    refine exists_congr fun other => and_congr_right ?_
    rintro rfl
    have different : other ≠ key := fun equal => same (by rw [equal])
    rw [HashMap.lookup_insert_ite, if_neg different]

/-- Conversely the lookups tell that nothing but the inserted key has changed. -/
theorem Represents.updated {slot slot' : Option Patricia} {m : HashMap Bytes Bytes} {key new : Bytes}
    (before : Represents slot m) (after : Represents slot' (m.insert key new)) (word : List Nibble) :
    findSlot slot' word = if word = nibblePath key then some new else findSlot slot word := by
  by_cases same : word = nibblePath key
  · subst same
    rw [if_pos rfl, after.find_eq, HashMap.lookup_insert_ite, if_pos rfl]
  · rw [if_neg same]
    refine Option.ext fun value => ?_
    rw [after, before]
    refine exists_congr fun other => and_congr_right ?_
    rintro rfl
    have different : other ≠ key := fun equal => same (by rw [equal])
    rw [HashMap.lookup_insert_ite, if_neg different]

/-- One insertion that splits no nested leaf. -/
theorem Represents.insert {slot : Option Patricia} {m : HashMap Bytes Bytes} (represents : Represents slot m)
    {key : Bytes} (safe : ¬ Loses slot (nibblePath key)) (value : Bytes) :
    Represents (some (insertSlot dropPath slot (nibblePath key) value)) (m.insert key value) := by
  refine represents.update fun word => ?_
  cases slot with
  | none => simp
  | some t => rw [insertSlot_some, insertTree_dropPath safe, findSlot_some, find_insertTree]; rfl

/-- One insertion that does split a nested leaf. -/
theorem Represents.insert_lost {slot : Option Patricia} {m : HashMap Bytes Bytes} (represents : Represents slot m)
    {key : Bytes} (loses : Loses slot (nibblePath key)) (value : Bytes) :
    ¬ Represents (some (insertSlot dropPath slot (nibblePath key) value)) (m.insert key value) := by
  intro after
  cases slot with
  | none =>
    obtain ⟨_, _, lands, _⟩ := loses
    simp [landingSlot] at lands
  | some t =>
    obtain ⟨word, wrong⟩ := insertTree_dropPath_lost loses value
    exact wrong (represents.updated after word)

mutual
/-- The leaf at which `recursive_insert` arrives: its path and what is left of the inserted one. -/
def leafReached : TrieNode → List UInt8 → Option (List UInt8 × List UInt8)
  | .leaf remainingNibbles _, nibbles => some (remainingNibbles, nibbles)
  | .extension sharedNibbles child, nibbles =>
    match nibbles.dropPrefix? sharedNibbles with
    | some rest => leafReached child rest
    | none => none
  | .branch _ _, [] => none
  | .branch children _, nibble :: rest =>
    if inside : nibble.toNat < 16 then leafReachedSlot (children ⟨nibble.toNat, inside⟩) rest else none

def leafReachedSlot : Option TrieNode → List UInt8 → Option (List UInt8 × List UInt8)
  | none, _ => none
  | some node, nibbles => leafReached node nibbles
end

/-- Inserting the key arrives at a leaf where, of the leaf's path and the rest of the key, one
is a nonempty proper start of the other. -/
def MerkleTrie.SplitsNestedLeaf (trie : MerkleTrie) (key : Bytes) : Prop :=
  ∃ path rest, leafReachedSlot trie.root (bytesToNibbles key) = some (path, rest) ∧ Nested path rest

theorem dropPrefix?_map_nib (path key : List Nibble) :
    (key.map nib).dropPrefix? (path.map nib) = (strip path key).map (List.map nib) := by
  induction path generalizing key with
  | nil => simp [strip]
  | cons i path ih =>
    cases key with
    | nil => rfl
    | cons j key =>
      by_cases same : j = i
      · simpa [strip, List.dropPrefix?, same] using ih key
      · simp [strip, List.dropPrefix?, same, nib_injective.eq_iff]

theorem leafReached_embed (t : Patricia) (key : List Nibble) :
    leafReached (embed t) (key.map nib) = (landing t key).map fun ends => (ends.1.map nib, ends.2.map nib) := by
  induction t using Tree.induct generalizing key with
  | leaf path value => rfl
  | extension path child ih =>
    rw [embed_extension, leafReached, dropPrefix?_map_nib, landing]
    cases strip path key with
    | none => rfl
    | some rest => exact ih rest
  | branch children value ih =>
    cases key with
    | nil => rfl
    | cons i key =>
      rw [embed_branch, List.map_cons, leafReached, dif_pos (nib_toNat_lt i), slot_nib, landing, embedChildren]
      cases slot : children i with
      | none => rfl
      | some child => exact ih i child slot key

theorem nested_map_nib {path rest : List Nibble} : Nested (path.map nib) (rest.map nib) ↔ Nested path rest := by
  simp only [Nested, ne_eq, map_nib_injective.eq_iff, List.map_eq_nil_iff, List.prefix_map_iff_of_injective nib_injective]

theorem splitsNestedLeaf_embedSlot (slot : Option Patricia) (key : Bytes) :
    (⟨embedSlot slot⟩ : MerkleTrie).SplitsNestedLeaf key ↔ Loses slot (nibblePath key) := by
  cases slot with
  | none => simp [MerkleTrie.SplitsNestedLeaf, Loses, embedSlot, leafReachedSlot, landingSlot]
  | some t =>
    simp only [MerkleTrie.SplitsNestedLeaf, Loses, embedSlot, leafReachedSlot, landingSlot, bytesToNibbles_eq,
      leafReached_embed, Option.map_eq_some_iff, Prod.exists, Prod.mk.injEq]
    constructor
    · rintro ⟨_, _, ⟨path, rest, lands, rfl, rfl⟩, nested⟩
      exact ⟨path, rest, lands, nested_map_nib.mp nested⟩
    · rintro ⟨path, rest, lands, nested⟩
      exact ⟨_, _, ⟨path, rest, lands, rfl, rfl⟩, nested_map_nib.mpr nested⟩

/-- A run of insertions that never splits a nested leaf represents the last-write-wins map. -/
theorem represents_insertWords {entries : List (Bytes × Bytes)}
    (safe : ∀ front key value, front ++ [(key, value)] <+: entries → ¬ Loses (insertWords none front) (nibblePath key)) :
    Represents (insertWords none entries) (HashMap.insertAll ∅ entries) := by
  induction entries using List.reverseRecOn with
  | nil => exact represents_empty
  | append_singleton front entry ih =>
    rw [insertWords_append, HashMap.insertAll_append]
    have before := ih fun front key value inside => safe front key value (inside.trans (List.prefix_append _ _))
    exact before.insert (safe front entry.1 entry.2 (List.prefix_refl _)) entry.2

/-- The trie holds the last-write-wins map after every insertion of a sequence exactly when no
insertion arrives at a leaf whose path and the rest of the key are nested. -/
theorem insertMany_isMap_iff {entries : List (Bytes × Bytes)} (nonempty : ∀ entry ∈ entries, entry.1 ≠ []) :
    (∀ front, front <+: entries →
      ∃ trie, MerkleTrie.new.insertMany front = .ok trie ∧ trie.IsMap (HashMap.insertAll ∅ front)) ↔
    ∀ front key value trie, front ++ [(key, value)] <+: entries → MerkleTrie.new.insertMany front = .ok trie →
      ¬ trie.SplitsNestedLeaf key := by
  have runs : ∀ front, front <+: entries →
      MerkleTrie.new.insertMany front = .ok ⟨embedSlot (insertWords none front)⟩ :=
    fun front inside => insertMany_new fun entry member => nonempty entry (inside.subset member)
  have represented : ∀ front, front <+: entries →
      ((∃ trie, MerkleTrie.new.insertMany front = .ok trie ∧ trie.IsMap (HashMap.insertAll ∅ front)) ↔
        Represents (insertWords none front) (HashMap.insertAll ∅ front)) := by
    intro front inside
    simp only [runs front inside, Outcome.ok.injEq, exists_eq_left', isMap_embedSlot]
  constructor
  · intro holds front key value trie inside run splits
    have shorter : front <+: entries := (List.prefix_append _ _).trans inside
    rw [runs front shorter, Outcome.ok.injEq] at run
    rw [← run, splitsNestedLeaf_embedSlot] at splits
    have before := (represented front shorter).mp (holds front shorter)
    have after := (represented _ inside).mp (holds _ inside)
    rw [insertWords_append, HashMap.insertAll_append] at after
    exact before.insert_lost splits value after
  · intro safe front inside
    refine (represented front inside).mpr (represents_insertWords fun earlier key value within => ?_)
    have whole := within.trans inside
    rw [← splitsNestedLeaf_embedSlot]
    exact safe earlier key value _ whole (runs earlier ((List.prefix_append _ _).trans whole))

/-- Two keys that part at their first nibble. -/
theorem insertMany_isMap_twelve_thirtyfour :
    ∃ trie, MerkleTrie.new.insertMany [([0x12], [0xaa]), ([0x34], [0xbb])] = .ok trie ∧
      trie.IsMap (HashMap.insertAll ∅ [([0x12], [0xaa]), ([0x34], [0xbb])]) := by
  refine (insertMany_isMap_iff (by decide)).mpr ?_ _ (List.prefix_refl _)
  rintro front key value trie inside run ⟨path, rest, reached, different, _, _, nested⟩
  rcases front with _ | ⟨first, _ | ⟨second, front⟩⟩
  · cases run
    simp [MerkleTrie.new, leafReachedSlot] at reached
  · simp only [List.cons_append, List.nil_append, List.cons_prefix_cons, List.prefix_nil, Prod.mk.injEq] at inside
    obtain ⟨rfl, ⟨rfl, rfl⟩, _⟩ := inside
    cases run
    have ends : (([1, 2], [3, 4]) : List UInt8 × List UInt8) = (path, rest) := Option.some.inj reached
    cases ends
    revert nested
    decide
  · have longer := inside.length_le
    simp at longer

/-- With one key a start of the other both entries move: the shorter key is found at the
empty path and the longer one without the two nibbles of the shorter. -/
theorem insertMany_moves_nested_keys :
    ∃ trie, MerkleTrie.new.insertMany [([0x12], [0xaa]), ([0x12, 0x34], [0xbb])] = .ok trie ∧
      trie.contents = [([], [0xaa]), ([3, 4], [0xbb])] ∧
      ¬ trie.IsMap (HashMap.insertAll ∅ [([0x12], [0xaa]), ([0x12, 0x34], [0xbb])]) := by
  obtain ⟨trie, run, listed⟩ : ∃ trie, MerkleTrie.new.insertMany [([0x12], [0xaa]), ([0x12, 0x34], [0xbb])] =
      .ok trie ∧ trie.contents = [([], [0xaa]), ([3, 4], [0xbb])] := ⟨_, rfl, rfl⟩
  refine ⟨trie, run, listed, fun isMap => ?_⟩
  have present := (isMap [1, 2] [0xaa]).mpr ⟨[0x12], rfl, by decide⟩
  rw [listed] at present
  revert present
  decide

end MiniEthNode
