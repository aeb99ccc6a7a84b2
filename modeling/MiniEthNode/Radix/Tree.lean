import Mathlib.Logic.Function.Basic
import Mathlib.Data.List.Basic

namespace Radix
variable {ι α : Type}

/-- A compressed search tree over words in `ι`. A leaf holds the rest of its
word, an extension skips symbols shared by everything below it, and a branch
takes one symbol and can hold a value of its own. -/
inductive Tree (ι α : Type) where
  | leaf (path : List ι) (value : α)
  | extension (path : List ι) (child : Tree ι α)
  | branch (children : ι → Option (Tree ι α)) (value : Option α)

/-- Induction in which every occupied child of a branch satisfies the hypothesis. -/
theorem Tree.induct {motive : Tree ι α → Prop} (leaf : ∀ path value, motive (.leaf path value))
    (extension : ∀ path child, motive child → motive (.extension path child))
    (branch : ∀ children value, (∀ i child, children i = some child → motive child) →
      motive (.branch children value)) (t : Tree ι α) : motive t :=
  @Tree.rec ι α motive (fun slot => ∀ child, slot = some child → motive child) leaf extension
    branch (fun _ absent => by simp at absent) (fun _ ih _ same => Option.some.inj same ▸ ih) t

/-- A branch with a real choice: two occupied children, or a value and a child. -/
def Forks (children : ι → Option (Tree ι α)) (value : Option α) : Prop :=
  (∃ i j, i ≠ j ∧ (children i).isSome ∧ (children j).isSome) ∨
    (value.isSome ∧ ∃ i, (children i).isSome)

/-- The normal form: no empty or chained extension, and no branch without a choice. -/
inductive Canonical : Tree ι α → Prop
  | leaf {path value} : Canonical (.leaf path value)
  | extension {path children value} : path ≠ [] → Canonical (.branch children value) →
      Canonical (.extension path (.branch children value))
  | branch {children value} : Forks children value →
      (∀ i child, children i = some child → Canonical child) → Canonical (.branch children value)

theorem Canonical.forks {children : ι → Option (Tree ι α)} {value : Option α}
    (canonical : Canonical (.branch children value)) : Forks children value := by
  cases canonical with
  | branch forks _ => exact forks

theorem Forks.occupied {children : ι → Option (Tree ι α)} {value : Option α} (forks : Forks children value) :
    ∃ i, (children i).isSome := by
  rcases forks with ⟨i, _, _, here, _⟩ | ⟨_, i, here⟩ <;> exact ⟨i, here⟩

section Paths
variable [DecidableEq ι]

/-- What is left of a word after a given start. -/
def strip (path key : List ι) : Option (List ι) := key.dropPrefix? path

theorem strip_eq_some_iff {path key rest : List ι} : strip path key = some rest ↔ key = path ++ rest := by
  simp [strip, List.dropPrefix?_eq_some_iff]

@[simp] theorem strip_append (path rest : List ι) : strip path (path ++ rest) = some rest :=
  strip_eq_some_iff.mpr rfl

theorem strip_none_ne {path key : List ι} (missed : strip path key = none) (rest : List ι) :
    key ≠ path ++ rest := by
  intro same
  rw [same, strip_append] at missed
  exact Option.some_ne_none rest missed

/-- The number of symbols two words share at their start. -/
def sharedLen : List ι → List ι → Nat
  | i :: a, j :: b => if i = j then sharedLen a b + 1 else 0
  | [], _ => 0
  | _ :: _, [] => 0

/-- Two words fall apart right after the symbols they share. -/
theorem sharedLen_split (a b : List ι) : ∃ common left right, a = common ++ left ∧ b = common ++ right ∧
    sharedLen a b = common.length ∧ ∀ i l j r, left = i :: l → right = j :: r → i ≠ j := by
  induction a generalizing b with
  | nil => exact ⟨[], [], b, rfl, rfl, by simp [sharedLen], by simp⟩
  | cons i a ih =>
    cases b with
    | nil => exact ⟨[], i :: a, [], rfl, rfl, by simp [sharedLen], by simp⟩
    | cons j b =>
      by_cases same : i = j
      · subst same
        obtain ⟨common, left, right, first, second, length, apart⟩ := ih b
        exact ⟨i :: common, left, right, by rw [first]; rfl, by rw [second]; rfl,
          by simp [sharedLen, length], apart⟩
      · refine ⟨[], i :: a, j :: b, rfl, rfl, by simp [sharedLen, same], ?_⟩
        intro i' l j' r first second
        cases first
        cases second
        exact same

mutual
/-- The value held at exactly this word. -/
def find : Tree ι α → List ι → Option α
  | .leaf path value, key => if key = path then some value else none
  | .extension path child, key =>
    match strip path key with
    | some rest => find child rest
    | none => none
  | .branch _ value, [] => value
  | .branch children _, i :: key => findSlot (children i) key

def findSlot : Option (Tree ι α) → List ι → Option α
  | none, _ => none
  | some t, key => find t key
end

@[simp] theorem findSlot_none (key : List ι) : findSlot (none : Option (Tree ι α)) key = none := rfl

@[simp] theorem findSlot_some (t : Tree ι α) (key : List ι) : findSlot (some t) key = find t key := rfl

@[simp] theorem find_leaf (path : List ι) (value : α) (key : List ι) :
    find (.leaf path value) key = if key = path then some value else none := rfl

theorem find_extension (path : List ι) (child : Tree ι α) (key : List ι) :
    find (.extension path child) key = (strip path key).bind (find child) := by
  rw [find]
  cases strip path key <;> rfl

@[simp] theorem find_extension_append (path : List ι) (child : Tree ι α) (rest : List ι) :
    find (.extension path child) (path ++ rest) = find child rest := by
  rw [find_extension, strip_append]
  rfl

@[simp] theorem find_branch_nil (children : ι → Option (Tree ι α)) (value : Option α) :
    find (.branch children value) [] = value := rfl

@[simp] theorem find_branch_cons (children : ι → Option (Tree ι α)) (value : Option α) (i : ι) (key : List ι) :
    find (.branch children value) (i :: key) = findSlot (children i) key := rfl

/-- Nothing in normal form is empty. -/
theorem Canonical.nonempty {t : Tree ι α} (canonical : Canonical t) : ∃ key value, find t key = some value := by
  induction canonical with
  | @leaf path value => exact ⟨path, value, by simp⟩
  | @extension path _ _ _ _ ih =>
    obtain ⟨key, value, found⟩ := ih
    exact ⟨path ++ key, value, by rw [find_extension_append, found]⟩
  | @branch children value forks _ ih =>
    obtain ⟨i, here⟩ := forks.occupied
    obtain ⟨child, atChild⟩ := Option.isSome_iff_exists.mp here
    obtain ⟨key, found, atKey⟩ := ih i child atChild
    exact ⟨i :: key, found, by rw [find_branch_cons, atChild, findSlot_some, atKey]⟩

end Paths

end Radix
