import MiniEthNode.Trie.Contents
import MiniEthNode.Trie.Encoding

namespace MiniEthNode
open Rust Rlp Radix

/-- The entries of a map, each under the nibbles of its key. -/
def nibbleEntries (m : HashMap Bytes Bytes) : Finset (List Nibble × Bytes) :=
  m.keys.image fun key => (nibblePath key, (m.lookup key).getD [])

theorem mem_nibbleEntries {m : HashMap Bytes Bytes} {word : List Nibble} {value : Bytes} :
    (word, value) ∈ nibbleEntries m ↔ ∃ key, word = nibblePath key ∧ m.lookup key = some value := by
  simp only [nibbleEntries, Finset.mem_image, Finmap.mem_keys, Prod.mk.injEq]
  constructor
  · rintro ⟨key, inside, rfl, rfl⟩
    obtain ⟨held, present⟩ := Finmap.mem_iff.mp inside
    exact ⟨key, rfl, by rw [present]; rfl⟩
  · rintro ⟨key, rfl, present⟩
    exact ⟨key, Finmap.mem_of_lookup_eq_some present, rfl, by rw [present]; rfl⟩

/-- No key is a proper start of another. -/
def PrefixFree (entries : List (Bytes × Bytes)) : Prop :=
  ∀ first ∈ entries, ∀ second ∈ entries, first.1 <+: second.1 → first.1 = second.1

instance (entries : List (Bytes × Bytes)) : Decidable (PrefixFree entries) :=
  inferInstanceAs (Decidable (∀ first ∈ entries, ∀ second ∈ entries, first.1 <+: second.1 → first.1 = second.1))

theorem start_of_nibblePath {a b : Bytes} (start : nibblePath a <+: nibblePath b) : a <+: b := by
  induction a generalizing b with
  | nil => exact List.nil_prefix
  | cons byte rest ih =>
    cases b with
    | nil => simp [nibblePath] at start
    | cons byte' rest' =>
      simp only [nibblePath, List.flatMap_cons, List.cons_append, List.nil_append, List.cons_prefix_cons,
        Fin.mk.injEq] at start
      have same : byte = byte' := UInt8.toNat_inj.mp (by omega)
      rw [same, List.cons_prefix_cons]
      exact ⟨rfl, ih start.2.2⟩

/-- Among prefix-free keys no insertion arrives at a nested leaf. -/
theorem Represents.not_loses {slot : Option Patricia} {front : List (Bytes × Bytes)}
    (represents : Represents slot (HashMap.insertAll ∅ front)) {key value : Bytes}
    (free : PrefixFree (front ++ [(key, value)])) : ¬ Loses slot (nibblePath key) := by
  intro loses
  obtain ⟨word, found, held, different, comparable⟩ := loses.comparable
  obtain ⟨other, rfl, present⟩ := (represents word found).mp held
  have member : (other, found) ∈ front := by
    rcases HashMap.mem_of_lookup_insertAll present with absent | member
    · simp at absent
    · exact member
  have earlier : (other, found) ∈ front ++ [(key, value)] := List.mem_append_left _ member
  have last : (key, value) ∈ front ++ [(key, value)] := List.mem_append_right _ (List.mem_singleton_self _)
  have same : other = key := by
    rcases comparable with first | second
    · exact free _ earlier _ last (start_of_nibblePath first)
    · exact (free _ last _ earlier (start_of_nibblePath second)).symm
  exact different (by rw [same])

theorem PrefixFree.represents {entries : List (Bytes × Bytes)} (free : PrefixFree entries) :
    Represents (insertWords none entries) (HashMap.insertAll ∅ entries) := by
  induction entries using List.reverseRecOn with
  | nil => exact represents_empty
  | append_singleton front entry ih =>
    have before : Represents (insertWords none front) (HashMap.insertAll ∅ front) :=
      ih fun first inFirst second inSecond =>
        free first (List.mem_append_left _ inFirst) second (List.mem_append_left _ inSecond)
    rw [insertWords_append, HashMap.insertAll_append]
    exact before.insert (before.not_loses free) entry.2

/-- Every sequence of insertions leaves a tree in normal form. -/
theorem canonical_insertWords {entries : List (Bytes × Bytes)} {slot : Option Patricia}
    (canonical : ∀ t, slot = some t → Canonical t) {t : Patricia} (reached : insertWords slot entries = some t) :
    Canonical t := by
  induction entries generalizing slot with
  | nil => exact canonical t reached
  | cons entry rest ih =>
    refine ih (fun u same => ?_) reached
    rw [← Option.some.inj same]
    cases slot with
    | none => exact .leaf
    | some s => exact (canonical s rfl).insertTree (fun _ _ _ branch => branch) _ _

/-- A tree in normal form has the root of the map that it represents. -/
theorem rootHash_of_represents (host : Host) {slot : Option Patricia} {m : HashMap Bytes Bytes}
    (represents : Represents slot m) (canonical : ∀ t, slot = some t → Canonical t) :
    (⟨embedSlot slot⟩ : MerkleTrie).rootHash host = .ok (trieRoot host.keccak256 (nibbleEntries m)) := by
  rw [rootHash_embedSlot]
  cases slot with
  | none =>
    have empty : nibbleEntries m = ∅ := by
      refine Finset.eq_empty_of_forall_notMem ?_
      rintro ⟨word, value⟩ member
      have found := (represents word value).mpr (mem_nibbleEntries.mp member)
      simp at found
    rw [trieRoot, empty, compose_empty, rootBytes]
  | some t =>
    have holds : Holds (nibbleEntries m) t := by
      intro word value
      rw [mem_nibbleEntries]
      exact (represents word value).symm
    rw [trieRoot, compose_eq_fold _ (canonical t rfl) holds]
    rfl

/-- The code's trie over prefix-free keys has the root of the structural composition of the
last-write-wins map. -/
theorem insertMany_rootHash (host : Host) {entries : List (Bytes × Bytes)}
    (nonempty : ∀ entry ∈ entries, entry.1 ≠ []) (free : PrefixFree entries) :
    ∃ trie, MerkleTrie.new.insertMany entries = .ok trie ∧
      trie.rootHash host = .ok (trieRoot host.keccak256 (nibbleEntries (HashMap.insertAll ∅ entries))) :=
  ⟨_, insertMany_new nonempty, rootHash_of_represents host free.represents
    fun _ reached => canonical_insertWords (fun _ absent => by simp at absent) reached⟩

end MiniEthNode
