import Mathlib.Algebra.BigOperators.Group.Finset.Basic
import Mathlib.Algebra.Order.BigOperators.Group.Finset
import Mathlib.Data.Finset.Lattice.Lemmas
import MiniEthNode.Radix.Tree

namespace Radix
variable {ι α ρ : Type}

/-- How the three kinds of node are put together from what is below them. -/
structure Assembly (ι α ρ : Type) where
  leaf : List ι → α → ρ
  extension : List ι → ρ → ρ
  branch : (ι → Option ρ) → Option α → ρ

mutual
/-- Assembles a tree from the bottom up. -/
def fold (A : Assembly ι α ρ) : Tree ι α → ρ
  | .leaf path value => A.leaf path value
  | .extension path child => A.extension path (fold A child)
  | .branch children value => A.branch (fun i => foldSlot A (children i)) value

def foldSlot (A : Assembly ι α ρ) : Option (Tree ι α) → Option ρ
  | none => none
  | some t => some (fold A t)
end

theorem foldSlot_eq (A : Assembly ι α ρ) (slot : Option (Tree ι α)) : foldSlot A slot = slot.map (fold A) := by
  cases slot <;> rfl

theorem fold_branch (A : Assembly ι α ρ) (children : ι → Option (Tree ι α)) (value : Option α) :
    fold A (.branch children value) = A.branch (fun i => (children i).map (fold A)) value := by
  rw [fold]
  congr 1
  funext i
  exact foldSlot_eq A (children i)

section Entries
variable [DecidableEq ι]

/-- The entries below a path, with the path taken off. -/
def below (path : List ι) (entries : Finset (List ι × α)) : Finset (List ι × α) :=
  entries.filterMap (fun entry => (strip path entry.1).map fun rest => (rest, entry.2)) <| by
    rintro ⟨first, a⟩ ⟨second, b⟩ ⟨rest, c⟩ atFirst atSecond
    simp only [Option.mem_def, Option.map_eq_some_iff, Prod.mk.injEq, strip_eq_some_iff] at atFirst atSecond
    obtain ⟨_, rfl, rfl, rfl⟩ := atFirst
    obtain ⟨_, rfl, rfl, rfl⟩ := atSecond
    rfl

@[simp] theorem mem_below {path rest : List ι} {value : α} {entries : Finset (List ι × α)} :
    (rest, value) ∈ below path entries ↔ (path ++ rest, value) ∈ entries := by
  simp only [below, Finset.mem_filterMap, Option.map_eq_some_iff, Prod.mk.injEq, strip_eq_some_iff, Prod.exists]
  constructor
  · rintro ⟨key, _, member, _, rfl, rfl, rfl⟩
    exact member
  · intro member
    exact ⟨path ++ rest, value, member, rest, rfl, rfl, rfl⟩

/-- The longest path with which every entry starts. -/
def LongestShared (entries : Finset (List ι × α)) (path : List ι) : Prop :=
  (∀ entry ∈ entries, path <+: entry.1) ∧ ∀ other, (∀ entry ∈ entries, other <+: entry.1) → other <+: path

omit [DecidableEq ι] in
theorem LongestShared.unique {entries : Finset (List ι × α)} {first second : List ι}
    (atFirst : LongestShared entries first) (atSecond : LongestShared entries second) : first = second :=
  (atSecond.2 first atFirst.1).eq_of_length_le (atFirst.2 second atSecond.1).length_le

open Classical in
/-- The value of the entry with the empty word. -/
noncomputable def valueHere (entries : Finset (List ι × α)) : Option α :=
  if here : ∃ value, ([], value) ∈ entries then some here.choose else none

/-- Symbols and entries together; every path taken off makes it smaller. -/
def weight (entries : Finset (List ι × α)) : Nat := ∑ entry ∈ entries, (entry.1.length + 1)

theorem weight_below_lt {path : List ι} {entries : Finset (List ι × α)} (longer : path ≠ [])
    (nonempty : entries ≠ ∅) : weight (below path entries) < weight entries := by
  have positive : 0 < path.length := List.length_pos_iff.mpr longer
  let lift : List ι × α ↪ List ι × α :=
    ⟨fun entry => (path ++ entry.1, entry.2), by
      rintro ⟨a, v⟩ ⟨b, w⟩ same
      simpa using same⟩
  have within : (below path entries).map lift ⊆ entries := by
    intro entry member
    obtain ⟨⟨rest, value⟩, inBelow, rfl⟩ := Finset.mem_map.mp member
    exact mem_below.mp inBelow
  by_cases empty : below path entries = ∅
  · obtain ⟨entry, member⟩ := Finset.nonempty_iff_ne_empty.mpr nonempty
    rw [weight, weight, empty, Finset.sum_empty]
    exact Finset.sum_pos (fun _ _ => Nat.succ_pos _) ⟨entry, member⟩
  · calc weight (below path entries)
        < ∑ entry ∈ below path entries, ((lift entry).1.length + 1) := by
          refine Finset.sum_lt_sum_of_nonempty (Finset.nonempty_iff_ne_empty.mpr empty) fun entry _ => ?_
          show entry.1.length + 1 < (path ++ entry.1).length + 1
          rw [List.length_append]
          omega
      _ = ∑ entry ∈ (below path entries).map lift, (entry.1.length + 1) := by rw [Finset.sum_map]
      _ ≤ weight entries := Finset.sum_le_sum_of_subset within

open Classical in
/-- The structural composition of a finite set of entries, from the top down: a leaf for a
single entry, an extension for the longest path shared by several, and a branch otherwise. -/
noncomputable def compose (A : Assembly ι α ρ) (entries : Finset (List ι × α)) : Option ρ :=
  if _ : entries = ∅ then none
  else if single : ∃ entry, entries = {entry} then some (A.leaf single.choose.1 single.choose.2)
  else if shared : ∃ path, path ≠ [] ∧ LongestShared entries path then
    (compose A (below shared.choose entries)).map (A.extension shared.choose)
  else some (A.branch (fun i => compose A (below [i] entries)) (valueHere entries))
termination_by weight entries
decreasing_by
  · exact weight_below_lt shared.choose_spec.1 ‹_›
  · exact weight_below_lt (List.cons_ne_nil i []) ‹_›

theorem compose_empty (A : Assembly ι α ρ) : compose A ∅ = none := by
  rw [compose, dif_pos rfl]

theorem compose_singleton (A : Assembly ι α ρ) (path : List ι) (value : α) :
    compose A {(path, value)} = some (A.leaf path value) := by
  have single : ∃ entry, ({(path, value)} : Finset (List ι × α)) = {entry} := ⟨_, rfl⟩
  have chosen : single.choose = (path, value) := (Finset.singleton_inj.mp single.choose_spec).symm
  rw [compose, dif_neg (Finset.singleton_ne_empty _), dif_pos single, chosen]

theorem compose_shared (A : Assembly ι α ρ) {entries : Finset (List ι × α)} (nonempty : entries ≠ ∅)
    (several : ¬ ∃ entry, entries = {entry}) {path : List ι} (longer : path ≠ [])
    (longest : LongestShared entries path) :
    compose A entries = (compose A (below path entries)).map (A.extension path) := by
  have shared : ∃ path, path ≠ [] ∧ LongestShared entries path := ⟨path, longer, longest⟩
  have chosen : shared.choose = path := shared.choose_spec.2.unique longest
  rw [compose, dif_neg nonempty, dif_neg several, dif_pos shared, chosen]

theorem compose_forked (A : Assembly ι α ρ) {entries : Finset (List ι × α)} (nonempty : entries ≠ ∅)
    (several : ¬ ∃ entry, entries = {entry}) (apart : ∀ path, LongestShared entries path → path = []) :
    compose A entries = some (A.branch (fun i => compose A (below [i] entries)) (valueHere entries)) := by
  rw [compose, dif_neg nonempty, dif_neg several, dif_neg]
  rintro ⟨path, longer, longest⟩
  exact longer (apart path longest)

/-- The entries of a tree, as a set of pairs. -/
def Holds (entries : Finset (List ι × α)) (t : Tree ι α) : Prop :=
  ∀ key value, (key, value) ∈ entries ↔ find t key = some value

theorem find_of_child {children : ι → Option (Tree ι α)} {value : Option α}
    (canonical : Canonical (.branch children value)) {i : ι} (occupied : (children i).isSome) :
    ∃ key found, find (.branch children value) (i :: key) = some found := by
  obtain ⟨child, atChild⟩ := Option.isSome_iff_exists.mp occupied
  cases canonical with
  | branch _ each =>
    obtain ⟨key, found, atKey⟩ := (each i child atChild).nonempty
    exact ⟨key, found, by rw [find_branch_cons, atChild, findSlot_some, atKey]⟩

/-- The words of a branch share no first symbol. -/
theorem branch_shares_nothing {children : ι → Option (Tree ι α)} {value : Option α}
    (canonical : Canonical (.branch children value)) {path : List ι}
    (shared : ∀ key found, find (.branch children value) key = some found → path <+: key) : path = [] := by
  rcases canonical.forks with ⟨i, j, different, first, second⟩ | ⟨held, _⟩
  · obtain ⟨_, _, atFirst⟩ := find_of_child canonical first
    obtain ⟨_, _, atSecond⟩ := find_of_child canonical second
    rcases path with _ | ⟨c, path⟩
    · rfl
    · have left := (List.cons_prefix_cons.mp (shared _ _ atFirst)).1
      have right := (List.cons_prefix_cons.mp (shared _ _ atSecond)).1
      exact absurd (left.symm.trans right) different
  · obtain ⟨found, here⟩ := Option.isSome_iff_exists.mp held
    exact List.prefix_nil.mp (shared [] found (by rw [find_branch_nil, here]))

/-- A branch holds more than one word. -/
theorem branch_not_single {children : ι → Option (Tree ι α)} {value : Option α}
    (canonical : Canonical (.branch children value)) (only : List ι) :
    ¬ ∀ key found, find (.branch children value) key = some found → key = only := by
  intro single
  have empty : only = [] := branch_shares_nothing canonical fun key found here => by rw [single key found here]
  obtain ⟨i, occupied⟩ := canonical.forks.occupied
  obtain ⟨key, found, here⟩ := find_of_child canonical occupied
  have same := single _ _ here
  simp [empty] at same

theorem Holds.below_extension {entries : Finset (List ι × α)} {path : List ι} {child : Tree ι α}
    (holds : Holds entries (.extension path child)) : Holds (below path entries) child := by
  intro key value
  rw [mem_below, holds, find_extension_append]

theorem Holds.below_child {entries : Finset (List ι × α)} {children : ι → Option (Tree ι α)} {value : Option α}
    (holds : Holds entries (.branch children value)) {i : ι} {child : Tree ι α} (here : children i = some child) :
    Holds (below [i] entries) child := by
  intro key found
  rw [mem_below, holds, List.singleton_append, find_branch_cons, here, findSlot_some]

theorem Holds.below_empty {entries : Finset (List ι × α)} {children : ι → Option (Tree ι α)} {value : Option α}
    (holds : Holds entries (.branch children value)) {i : ι} (here : children i = none) :
    below [i] entries = ∅ := by
  refine Finset.eq_empty_of_forall_notMem ?_
  rintro ⟨key, found⟩ member
  rw [mem_below, holds, List.singleton_append, find_branch_cons, here] at member
  simp at member

theorem Holds.valueHere {entries : Finset (List ι × α)} {children : ι → Option (Tree ι α)} {value : Option α}
    (holds : Holds entries (.branch children value)) : valueHere entries = value := by
  have at_nil : ∀ found, ([], found) ∈ entries ↔ value = some found := fun found => by
    rw [holds, find_branch_nil]
  unfold Radix.valueHere
  split
  · rename_i here
    exact ((at_nil _).mp here.choose_spec).symm
  · rename_i absent
    cases value with
    | none => rfl
    | some found => exact absurd ⟨found, (at_nil found).mpr rfl⟩ absent

theorem Holds.longestShared {entries : Finset (List ι × α)} {path : List ι}
    {children : ι → Option (Tree ι α)} {value : Option α}
    (holds : Holds entries (.extension path (.branch children value)))
    (canonical : Canonical (.branch children value)) : LongestShared entries path := by
  have starts : ∀ entry ∈ entries, path <+: entry.1 := by
    rintro ⟨key, found⟩ member
    rw [holds, find_extension, Option.bind_eq_some_iff] at member
    obtain ⟨rest, atRest, _⟩ := member
    exact ⟨rest, (strip_eq_some_iff.mp atRest).symm⟩
  refine ⟨starts, fun other shared => ?_⟩
  obtain ⟨key, found, here⟩ := canonical.nonempty
  have member : (path ++ key, found) ∈ entries := by rw [holds, find_extension_append, here]
  rcases List.prefix_or_prefix_of_prefix (shared _ member) (starts _ member) with shorter | ⟨rest, rfl⟩
  · exact shorter
  · have nothing : rest = [] := by
      refine branch_shares_nothing canonical fun key found here => ?_
      have member : (path ++ key, found) ∈ entries := by rw [holds, find_extension_append, here]
      exact (List.prefix_append_right_inj path).mp (shared _ member)
    rw [nothing, List.append_nil]

theorem Holds.nonempty {entries : Finset (List ι × α)} {t : Tree ι α} (holds : Holds entries t)
    (canonical : Canonical t) : entries ≠ ∅ := by
  obtain ⟨key, value, found⟩ := canonical.nonempty
  exact Finset.ne_empty_of_mem ((holds key value).mpr found)

theorem Holds.several {entries : Finset (List ι × α)} {path : List ι} {children : ι → Option (Tree ι α)}
    {value : Option α} (canonical : Canonical (.branch children value))
    (holds : Holds (below path entries) (.branch children value)) : ¬ ∃ entry, entries = {entry} := by
  rintro ⟨⟨only, found⟩, rfl⟩
  refine branch_not_single canonical (only.drop path.length) fun key value here => ?_
  have member := mem_below.mp ((holds key value).mpr here)
  rw [Finset.mem_singleton, Prod.mk.injEq] at member
  rw [← member.1, List.drop_left]

/-- A tree in normal form assembles to the structural composition of its entries. -/
theorem compose_eq_fold (A : Assembly ι α ρ) {t : Tree ι α} (canonical : Canonical t)
    {entries : Finset (List ι × α)} (holds : Holds entries t) : compose A entries = some (fold A t) := by
  have nonempty := holds.nonempty canonical
  induction t using Tree.induct generalizing entries with
  | leaf path value =>
    have single : entries = {(path, value)} := by
      refine Finset.ext ?_
      rintro ⟨key, found⟩
      rw [holds, find_leaf, Finset.mem_singleton, Prod.mk.injEq]
      by_cases same : key = path <;> simp [same, eq_comm]
    rw [single, compose_singleton, fold]
  | extension path child ih =>
    cases canonical with
    | extension longer branch =>
      have inside := holds.below_extension
      rw [compose_shared A nonempty (Holds.several branch inside) longer (holds.longestShared branch),
        ih branch inside (inside.nonempty branch), Option.map_some, fold]
  | branch children value ih =>
    have whole : Holds (below [] entries) (.branch children value) := fun key found => by
      rw [mem_below, List.nil_append, holds]
    have apart : ∀ path, LongestShared entries path → path = [] := fun path longest =>
      branch_shares_nothing canonical fun key found here => longest.1 _ ((holds key found).mpr here)
    rw [compose_forked A nonempty (Holds.several canonical whole) apart, holds.valueHere, fold_branch]
    congr 2
    funext i
    cases here : children i with
    | none => rw [holds.below_empty here, compose_empty, Option.map_none]
    | some child =>
      cases canonical with
      | branch _ each =>
        have inside := holds.below_child here
        rw [ih i child here (each i child here) inside (inside.nonempty (each i child here)), Option.map_some]

end Entries

end Radix
