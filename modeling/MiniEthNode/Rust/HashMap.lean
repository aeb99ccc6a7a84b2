import Mathlib.Data.Finmap
import Mathlib.Data.List.Sort
import Mathlib.Algebra.BigOperators.Group.Multiset.Basic

namespace Rust

/-- A standard map, up to the order in which it happens to store its entries. -/
abbrev HashMap (K V : Type) : Type := Finmap fun _ : K => V

namespace HashMap
variable {K V : Type} [DecidableEq K]

@[simp] theorem lookup_insert_ite (m : HashMap K V) (k k' : K) (v : V) :
    (m.insert k v).lookup k' = if k' = k then some v else m.lookup k' := by
  split
  · rename_i same; subst same; exact m.lookup_insert
  · rename_i other; exact m.lookup_insert_of_ne other

@[simp] theorem lookup_erase_ite (m : HashMap K V) (k k' : K) :
    (m.erase k).lookup k' = if k' = k then none else m.lookup k' := by
  split
  · rename_i same; subst same; exact Finmap.lookup_erase _ m
  · rename_i other; exact Finmap.lookup_erase_ne other

theorem insert_erase_self (m : HashMap K V) (k : K) (v : V) : (m.erase k).insert k v = m.insert k v := by
  apply Finmap.ext_lookup
  intro k'
  simp only [lookup_insert_ite, lookup_erase_ite]
  split <;> rfl

theorem insert_of_lookup {m : HashMap K V} {k : K} {v : V} (present : m.lookup k = some v) :
    m.insert k v = m := by
  apply Finmap.ext_lookup
  intro k'
  rw [lookup_insert_ite]
  split
  · rename_i same; rw [same, present]
  · rfl

theorem erase_insert_self {m : HashMap K V} {k : K} (absent : m.lookup k = none) (v : V) :
    (m.insert k v).erase k = m := by
  apply Finmap.ext_lookup
  intro k'
  rw [lookup_erase_ite, lookup_insert_ite]
  split
  · rename_i same; rw [same, absent]
  · rfl

theorem erase_insert_of_ne {m : HashMap K V} {k other : K} (different : other ≠ k) (v : V) :
    (m.insert k v).erase other = (m.erase other).insert k v := by
  apply Finmap.ext_lookup
  intro k'
  simp only [lookup_erase_ite, lookup_insert_ite]
  by_cases here : k' = other
  · rw [if_pos here, if_neg (here ▸ different), if_pos here]
  · rw [if_neg here, if_neg here]

theorem erase_of_lookup_none {m : HashMap K V} {k : K} (absent : m.lookup k = none) : m.erase k = m := by
  apply Finmap.ext_lookup
  intro k'
  rw [lookup_erase_ite]
  split
  · rename_i same; rw [same, absent]
  · rfl

/-- What is true of all entries is true of each. -/
theorem all_lookup {m : HashMap K V} {f : K → V → Bool} (all : m.all f = true) {k : K} {v : V}
    (found : m.lookup k = some v) : f k v = true := by
  have fold : ∀ (entries : List (Sigma fun _ : K => V)) (start : Bool),
      entries.foldl (fun d s => d && f s.1 s.2) start = true → start = true ∧ ∀ s ∈ entries, f s.1 s.2 = true := by
    intro entries
    induction entries with
    | nil => exact fun start ended => ⟨ended, by simp⟩
    | cons entry rest ih =>
      intro start ended
      obtain ⟨here, later⟩ := ih _ ended
      obtain ⟨first, own⟩ := Bool.and_eq_true_iff.mp here
      exact ⟨first, List.forall_mem_cons.mpr ⟨own, later⟩⟩
  have member := Finmap.lookup_eq_some_iff.mp found
  obtain ⟨⟨entries⟩, nodup⟩ := m
  exact (fold entries true all).2 ⟨k, v⟩ member

theorem keys_card_erase {m : HashMap K V} {k : K} {v : V} (present : m.lookup k = some v) :
    (m.erase k).keys.card + 1 = m.keys.card := by
  have member : k ∈ m.keys := Finmap.mem_keys.mpr (Finmap.mem_of_lookup_eq_some present)
  rw [Finmap.keys_erase]
  exact Finset.card_erase_add_one member

theorem keys_card_insert_le (m : HashMap K V) (k : K) (v : V) : (m.insert k v).keys.card ≤ m.keys.card + 1 := by
  have covered : (m.insert k v).keys ⊆ Insert.insert k m.keys := by
    intro other member
    rw [Finmap.mem_keys, Finmap.mem_insert] at member
    rw [Finset.mem_insert, Finmap.mem_keys]
    exact member
  exact (Finset.card_le_card covered).trans (Finset.card_insert_le k m.keys)

theorem keys_card_insert {m : HashMap K V} {k : K} (absent : m.lookup k = none) (v : V) :
    (m.insert k v).keys.card = m.keys.card + 1 := by
  have keys : (m.insert k v).keys = Insert.insert k m.keys := by
    ext other
    rw [Finmap.mem_keys, Finmap.mem_insert, Finset.mem_insert, Finmap.mem_keys]
  have fresh : k ∉ m.keys := fun member => Finmap.lookup_eq_none.mp absent (Finmap.mem_keys.mp member)
  rw [keys, Finset.card_insert_of_notMem fresh]

/-- Inserting a list of entries one after the other: the last write to a key wins. -/
def insertAll (m : HashMap K V) (entries : List (K × V)) : HashMap K V :=
  entries.foldl (fun m e => m.insert e.1 e.2) m

@[simp] theorem insertAll_nil (m : HashMap K V) : insertAll m [] = m := rfl

@[simp] theorem insertAll_cons (m : HashMap K V) (e : K × V) (rest : List (K × V)) :
    insertAll m (e :: rest) = insertAll (m.insert e.1 e.2) rest := rfl

theorem insertAll_append (m : HashMap K V) (first rest : List (K × V)) :
    insertAll m (first ++ rest) = insertAll (insertAll m first) rest :=
  List.foldl_append

theorem lookup_insertAll_of_notMem {m : HashMap K V} {entries : List (K × V)} {k : K}
    (absent : k ∉ entries.map Prod.fst) : (insertAll m entries).lookup k = m.lookup k := by
  induction entries generalizing m with
  | nil => rfl
  | cons e rest ih =>
    simp only [List.map_cons, List.mem_cons, not_or] at absent
    rw [insertAll_cons, ih absent.2, lookup_insert_ite, if_neg absent.1]

theorem lookup_insertAll_of_mem {m : HashMap K V} {entries : List (K × V)} {k : K} {v : V}
    (distinct : (entries.map Prod.fst).Nodup) (member : (k, v) ∈ entries) :
    (insertAll m entries).lookup k = some v := by
  induction entries generalizing m with
  | nil => simp at member
  | cons e rest ih =>
    simp only [List.map_cons, List.nodup_cons] at distinct
    rcases List.mem_cons.mp member with same | later
    · subst same
      rw [insertAll_cons, lookup_insertAll_of_notMem distinct.1, lookup_insert_ite, if_pos rfl]
    · exact ih distinct.2 later

/-- A key of the resulting map was there before or has been written. -/
theorem mem_of_lookup_insertAll {m : HashMap K V} {entries : List (K × V)} {k : K} {v : V}
    (found : (insertAll m entries).lookup k = some v) : m.lookup k = some v ∨ (k, v) ∈ entries := by
  induction entries generalizing m with
  | nil => exact Or.inl found
  | cons e rest ih =>
    rcases ih found with before | later
    · rw [lookup_insert_ite] at before
      split at before
      · rename_i same
        cases Option.some.inj before
        exact Or.inr (by simp [same])
      · exact Or.inl before
    · exact Or.inr (List.mem_cons_of_mem _ later)

/-- A key that has been written holds one of the values written to it. -/
theorem lookup_insertAll_of_key {m : HashMap K V} {entries : List (K × V)} {k : K}
    (member : k ∈ entries.map Prod.fst) : ∃ v, (insertAll m entries).lookup k = some v ∧ (k, v) ∈ entries := by
  induction entries generalizing m with
  | nil => simp at member
  | cons e rest ih =>
    by_cases later : k ∈ rest.map Prod.fst
    · obtain ⟨v, found, inside⟩ := ih (m := m.insert e.1 e.2) later
      exact ⟨v, found, List.mem_cons_of_mem _ inside⟩
    · have here : k = e.1 := by simpa [later] using member
      refine ⟨e.2, ?_, by simp [here]⟩
      rw [insertAll_cons, lookup_insertAll_of_notMem later, lookup_insert_ite, if_pos here]

/-- A function, stored for a list of keys. -/
theorem lookup_insertAll_map (f : K → V) (keys : List K) (k : K) :
    (insertAll ∅ (keys.map fun key => (key, f key))).lookup k = if k ∈ keys then some (f k) else none := by
  have same : (keys.map fun key => (key, f key)).map Prod.fst = keys := by
    rw [List.map_map]
    exact List.map_id _
  split
  · rename_i member
    obtain ⟨v, found, inside⟩ := lookup_insertAll_of_key (m := ∅) (same.symm ▸ member)
    obtain ⟨_, _, pair⟩ := List.mem_map.mp inside
    cases pair
    exact found
  · rename_i absent
    exact lookup_insertAll_of_notMem (same.symm ▸ absent)

/-- A list of the entries of a map in some order, as a loop over the map visits them. -/
def Enumerates (m : HashMap K V) (entries : List (K × V)) : Prop :=
  (entries.map Prod.fst).Nodup ∧ insertAll ∅ entries = m

instance [DecidableEq V] (m : HashMap K V) (entries : List (K × V)) : Decidable (m.Enumerates entries) :=
  inferInstanceAs (Decidable (_ ∧ _))

theorem Enumerates.mem_iff {m : HashMap K V} {entries : List (K × V)} (enumerates : m.Enumerates entries) {k : K}
    {v : V} : (k, v) ∈ entries ↔ m.lookup k = some v := by
  obtain ⟨distinct, rfl⟩ := enumerates
  constructor
  · exact lookup_insertAll_of_mem distinct
  · intro found
    rcases mem_of_lookup_insertAll found with empty | member
    · cases empty
    · exact member

/-- A loop over the map comes to a key once, if it is there. -/
theorem Enumerates.filter_key {m : HashMap K V} {entries : List (K × V)} (enumerates : m.Enumerates entries) (k : K) :
    (entries.filter fun entry => entry.1 = k) = ((m.lookup k).map fun v => (k, v)).toList := by
  have away {part : List (K × V)} (absent : k ∉ part.map Prod.fst) : (part.filter fun entry => entry.1 = k) = [] := by
    refine List.filter_eq_nil_iff.mpr fun entry member same => absent ?_
    exact List.mem_map.mpr ⟨entry, member, of_decide_eq_true same⟩
  cases found : m.lookup k with
  | none =>
    refine away fun member => ?_
    obtain ⟨⟨_, v⟩, inside, rfl⟩ := List.mem_map.mp member
    cases found.symm.trans (enumerates.mem_iff.mp inside)
  | some v =>
    obtain ⟨before, after, rfl⟩ := List.append_of_mem (enumerates.mem_iff.mpr found)
    have distinct := enumerates.1
    rw [List.map_append, List.map_cons, List.nodup_middle, List.nodup_cons, List.mem_append, not_or] at distinct
    simp [List.filter_append, away distinct.1.1, away distinct.1.2]

/-- The sum of a quantity over all entries. -/
def sumBy (f : V → Nat) (m : HashMap K V) : Nat :=
  (m.entries.map fun e => f e.2).sum

omit [DecidableEq K] in
@[simp] theorem sumBy_empty (f : V → Nat) : sumBy f (∅ : HashMap K V) = 0 := rfl

theorem sumBy_insert_of_notMem (f : V → Nat) {m : HashMap K V} {k : K} (v : V) (absent : k ∉ m) :
    sumBy f (m.insert k v) = f v + sumBy f m := by
  simp [sumBy, Finmap.entries_insert_of_notMem absent]

/-- Overwriting an entry trades the old quantity for the new one. -/
theorem sumBy_insert (f : V → Nat) (m : HashMap K V) (k : K) (v : V) :
    sumBy f (m.insert k v) + ((m.lookup k).map f).getD 0 = sumBy f m + f v := by
  have fresh := sumBy_insert_of_notMem f v (Finmap.notMem_erase_self (a := k) (s := m))
  rw [insert_erase_self] at fresh
  cases present : m.lookup k with
  | none =>
    rw [erase_of_lookup_none present] at fresh
    simp only [Option.map_none, Option.getD_none]
    omega
  | some old =>
    have restored := sumBy_insert_of_notMem f old (Finmap.notMem_erase_self (a := k) (s := m))
    rw [insert_erase_self, insert_of_lookup present] at restored
    simp only [Option.map_some, Option.getD_some]
    omega

end HashMap

/-- The order in which `iter` yields the entries of a map. The standard map
promises no order: it is only known to yield every entry exactly once. -/
structure Iteration (K : Type) [DecidableEq K] where
  entries : {V : Type} → HashMap K V → List (K × V)
  mem_iff : ∀ {V : Type} (m : HashMap K V) (k : K) (v : V), (k, v) ∈ entries m ↔ m.lookup k = some v
  nodup : ∀ {V : Type} (m : HashMap K V), ((entries m).map Prod.fst).Nodup

namespace Iteration
variable {K V : Type}

/-- Copying a map entry by entry gives back the map, in whatever order. -/
theorem insertAll_entries [DecidableEq K] (order : Iteration K) (m : HashMap K V) :
    HashMap.insertAll ∅ (order.entries m) = m := by
  apply Finmap.ext_lookup
  intro k
  cases present : m.lookup k with
  | some v => exact HashMap.lookup_insertAll_of_mem (order.nodup m) ((order.mem_iff m k v).mpr present)
  | none =>
    rw [HashMap.lookup_insertAll_of_notMem]
    · rfl
    · intro member
      obtain ⟨⟨key, v⟩, inside, same⟩ := List.mem_map.mp member
      subst same
      rw [(order.mem_iff m key v).mp inside] at present
      exact Option.some_ne_none v present

/-- The keys of a map in ascending rank. -/
def sortedKeys (rank : K → Nat) (distinct : Function.Injective rank) (m : HashMap K V) : List K :=
  Quot.liftOn m.keys.val (List.insertionSort fun a b => rank a ≤ rank b) fun first second same => by
    have trans : IsTrans K fun a b => rank a ≤ rank b := ⟨fun _ _ _ => Nat.le_trans⟩
    have antisymm : Std.Antisymm fun a b : K => rank a ≤ rank b :=
      ⟨fun _ _ below above => distinct (Nat.le_antisymm below above)⟩
    have total : Std.Total fun a b : K => rank a ≤ rank b := ⟨fun _ _ => Nat.le_total _ _⟩
    exact ((List.perm_insertionSort _ first).trans
      (same.trans (List.perm_insertionSort _ second).symm)).eq_of_pairwise'
      (List.pairwise_insertionSort _ first) (List.pairwise_insertionSort _ second)

theorem coe_sortedKeys (rank : K → Nat) (distinct : Function.Injective rank) (m : HashMap K V) :
    (sortedKeys rank distinct m : Multiset K) = m.keys.val := by
  unfold sortedKeys
  induction m.keys.val using Quot.inductionOn with
  | h keys => exact Quot.sound (List.perm_insertionSort _ keys)

theorem mem_sortedKeys {rank : K → Nat} {distinct : Function.Injective rank} {m : HashMap K V} {k : K} :
    k ∈ sortedKeys rank distinct m ↔ k ∈ m := by
  rw [← Multiset.mem_coe, coe_sortedKeys]
  exact Finmap.mem_keys

theorem nodup_sortedKeys (rank : K → Nat) (distinct : Function.Injective rank) (m : HashMap K V) :
    (sortedKeys rank distinct m).Nodup := by
  rw [← Multiset.coe_nodup, coe_sortedKeys]
  exact m.keys.nodup

/-- One admissible order: ascending in an injective rank of the keys. -/
def ascending [DecidableEq K] (rank : K → Nat) (distinct : Function.Injective rank) : Iteration K where
  entries m := (sortedKeys rank distinct m).filterMap fun k => (m.lookup k).map fun v => (k, v)
  mem_iff m k v := by
    simp only [List.mem_filterMap, Option.map_eq_some_iff, Prod.mk.injEq]
    constructor
    · rintro ⟨key, _, value, found, rfl, rfl⟩
      exact found
    · intro found
      exact ⟨k, mem_sortedKeys.mpr (Finmap.mem_of_lookup_eq_some found), v, found, rfl, rfl⟩
  nodup m := by
    rw [List.map_filterMap]
    refine (nodup_sortedKeys rank distinct m).filterMap ?_
    intro a b k first second
    simp only [Option.mem_def, Option.map_map, Option.map_eq_some_iff, Function.comp_apply] at first second
    obtain ⟨_, _, rfl⟩ := first
    obtain ⟨_, _, same⟩ := second
    exact same.symm

end Iteration

end Rust
