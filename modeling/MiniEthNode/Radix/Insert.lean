import MiniEthNode.Radix.Tree

namespace Radix
variable {ι α : Type} [DecidableEq ι]

/-- Puts a node below a path, without an extension when the path is empty. -/
def wrap : List ι → Tree ι α → Tree ι α
  | [], t => t
  | i :: path, t => .extension (i :: path) t

/-- Children of a branch with a single occupied slot. -/
def onlyChild (i : ι) (t : Tree ι α) : ι → Option (Tree ι α) := Function.update (fun _ => none) i (some t)

omit [DecidableEq ι] in
@[simp] theorem wrap_nil (t : Tree ι α) : wrap [] t = t := rfl

theorem find_wrap (path : List ι) (t : Tree ι α) (key : List ι) :
    find (wrap path t) key = (strip path key).bind (find t) := by
  cases path with
  | nil => simp [strip]
  | cons i path => exact find_extension _ _ _

@[simp] theorem find_wrap_append (path : List ι) (t : Tree ι α) (rest : List ι) :
    find (wrap path t) (path ++ rest) = find t rest := by
  rw [find_wrap, strip_append]
  rfl

theorem findSlot_onlyChild (i : ι) (t : Tree ι α) (j : ι) (key : List ι) :
    findSlot (onlyChild i t j) key = if j = i then find t key else none := by
  by_cases same : j = i
  · subst same
    simp [onlyChild]
  · simp [onlyChild, same]

omit [DecidableEq ι] in
theorem canonical_wrap {path : List ι} {children : ι → Option (Tree ι α)} {value : Option α}
    (canonical : Canonical (.branch children value)) : Canonical (wrap path (.branch children value)) := by
  cases path with
  | nil => exact canonical
  | cons i path => exact .extension (List.cons_ne_nil i path) canonical

section Insertion
variable (keep : List ι → Tree ι α → Tree ι α)

/-- A leaf and a new word that part after `common`. When one of the two words ends
there, `keep` decides what becomes of the common path. -/
def partLeaf (common left : List ι) (old : α) (right : List ι) (new : α) : Tree ι α :=
  match left, right with
  | [], [] => .leaf common new
  | [], j :: right => keep common (.branch (onlyChild j (.leaf right new)) (some old))
  | i :: left, [] => keep common (.branch (onlyChild i (.leaf left old)) (some new))
  | i :: left, j :: right =>
    wrap common (.branch (Function.update (onlyChild i (.leaf left old)) j (some (.leaf right new))) none)

/-- An extension and a new word that part after `common`, before the extension ends. -/
def partExtension (common : List ι) (i : ι) (left : List ι) (child : Tree ι α) (right : List ι) (new : α) :
    Tree ι α :=
  match right with
  | [] => wrap common (.branch (onlyChild i (wrap left child)) (some new))
  | j :: right =>
    wrap common (.branch (Function.update (onlyChild j (.leaf right new)) i (some (wrap left child))) none)

mutual
/-- Insertion of one word, splitting the first leaf or extension that disagrees with it. -/
def insertTree : Tree ι α → List ι → α → Tree ι α
  | .leaf path old, key, new =>
    partLeaf keep (key.take (sharedLen path key)) (path.drop (sharedLen path key)) old
      (key.drop (sharedLen path key)) new
  | .extension path child, key, new =>
    match path.drop (sharedLen path key) with
    | [] => .extension path (insertTree child (key.drop (sharedLen path key)) new)
    | i :: left =>
      partExtension (key.take (sharedLen path key)) i left child (key.drop (sharedLen path key)) new
  | .branch children _, [], new => .branch children (some new)
  | .branch children value, i :: key, new =>
    .branch (Function.update children i (some (insertSlot (children i) key new))) value

def insertSlot : Option (Tree ι α) → List ι → α → Tree ι α
  | none, key, new => .leaf key new
  | some t, key, new => insertTree t key new
end

@[simp] theorem insertSlot_none (key : List ι) (new : α) : insertSlot keep none key new = .leaf key new := rfl

@[simp] theorem insertSlot_some (t : Tree ι α) (key : List ι) (new : α) :
    insertSlot keep (some t) key new = insertTree keep t key new := rfl

@[simp] theorem insertTree_branch_nil (children : ι → Option (Tree ι α)) (value : Option α) (new : α) :
    insertTree keep (.branch children value) [] new = .branch children (some new) := rfl

@[simp] theorem insertTree_branch_cons (children : ι → Option (Tree ι α)) (value : Option α) (i : ι)
    (key : List ι) (new : α) : insertTree keep (.branch children value) (i :: key) new =
      .branch (Function.update children i (some (insertSlot keep (children i) key new))) value := rfl

/-- A leaf and a word, cut where they part. -/
theorem insertTree_leaf {common left right : List ι} (old new : α)
    (length : sharedLen (common ++ left) (common ++ right) = common.length) :
    insertTree keep (.leaf (common ++ left) old) (common ++ right) new =
      partLeaf keep common left old right new := by
  simp only [insertTree, length, List.take_left, List.drop_left]

/-- The word runs through the whole extension. -/
theorem insertTree_extension_through {path right : List ι} (child : Tree ι α) (new : α)
    (length : sharedLen path (path ++ right) = path.length) :
    insertTree keep (.extension path child) (path ++ right) new =
      .extension path (insertTree keep child right new) := by
  simp only [insertTree, length, List.drop_length, List.drop_left]

/-- The word leaves the extension before its end. -/
theorem insertTree_extension_part {common left right : List ι} {i : ι} (child : Tree ι α) (new : α)
    (length : sharedLen (common ++ i :: left) (common ++ right) = common.length) :
    insertTree keep (.extension (common ++ i :: left) child) (common ++ right) new =
      partExtension common i left child right new := by
  simp only [insertTree, length, List.take_left, List.drop_left]

end Insertion

section Lookup

/-- A new entry below a path changes the lookup at that one word. -/
theorem find_wrap_of_below {path right : List ι} {t u : Tree ι α} {new : α}
    (below : ∀ rest, find t rest = if rest = right then some new else find u rest) (key : List ι) :
    find (wrap path t) key = if key = path ++ right then some new else find (wrap path u) key := by
  rw [find_wrap, find_wrap]
  cases here : strip path key with
  | none =>
    rw [if_neg (strip_none_ne here right)]
    rfl
  | some rest =>
    rw [strip_eq_some_iff] at here
    subst here
    simp only [Option.bind_some, List.append_cancel_left_eq]
    exact below rest

theorem find_leaf_append (common left : List ι) (old : α) (key : List ι) :
    find (.leaf (common ++ left) old) key = find (wrap common (.leaf left old)) key := by
  rw [find_wrap]
  cases here : strip common key with
  | none => simp [strip_none_ne here left]
  | some rest =>
    rw [strip_eq_some_iff] at here
    simp [here]

theorem strip_append_left (common left key : List ι) :
    strip (common ++ left) key = (strip common key).bind (strip left) := by
  refine Option.ext fun rest => ?_
  simp [Option.bind_eq_some_iff, strip_eq_some_iff]

theorem find_extension_append_left (common left : List ι) (child : Tree ι α) (key : List ι) :
    find (.extension (common ++ left) child) key = find (wrap common (.extension left child)) key := by
  rw [find_wrap, find_extension, strip_append_left, Option.bind_assoc]
  congr 1
  funext rest
  rw [find_extension]

theorem find_partLeaf {common left right : List ι} (old new : α)
    (apart : ∀ i l j r, left = i :: l → right = j :: r → i ≠ j) (key : List ι) :
    find (partLeaf wrap common left old right new) key =
      if key = common ++ right then some new else find (.leaf (common ++ left) old) key := by
  rw [find_leaf_append]
  rcases left with _ | ⟨i, left⟩ <;> rcases right with _ | ⟨j, right⟩
  · rw [← find_leaf_append]
    by_cases same : key = common <;> simp [partLeaf, same]
  · refine find_wrap_of_below (fun rest => ?_) key
    rcases rest with _ | ⟨k, rest⟩
    · simp
    · by_cases same : k = j <;> simp [findSlot_onlyChild, same]
  · refine find_wrap_of_below (fun rest => ?_) key
    rcases rest with _ | ⟨k, rest⟩
    · simp
    · by_cases same : k = i <;> simp [findSlot_onlyChild, same]
  · have different : i ≠ j := apart i left j right rfl rfl
    refine find_wrap_of_below (fun rest => ?_) key
    rcases rest with _ | ⟨k, rest⟩
    · simp
    · by_cases atNew : k = j
      · subst atNew
        by_cases same : rest = right <;> simp [Ne.symm different, same]
      · rw [find_branch_cons, Function.update_of_ne atNew, findSlot_onlyChild]
        by_cases same : k = i <;> simp [atNew, same, different]

theorem find_partExtension {common left right : List ι} {i : ι} (child : Tree ι α) (new : α)
    (apart : ∀ j r, right = j :: r → i ≠ j) (key : List ι) :
    find (partExtension common i left child right new) key =
      if key = common ++ right then some new else find (.extension (common ++ i :: left) child) key := by
  have step : ∀ rest, find (.extension (i :: left) child) (i :: rest) = find (wrap left child) rest := by
    intro rest
    rw [find_wrap, find_extension]
    simp [strip, List.dropPrefix?]
  have miss : ∀ k rest, k ≠ i → find (.extension (i :: left) child) (k :: rest) = none := by
    intro k rest different
    rw [find_extension]
    simp [strip, List.dropPrefix?, different]
  rw [find_extension_append_left]
  rcases right with _ | ⟨j, right⟩
  · refine find_wrap_of_below (fun rest => ?_) key
    rcases rest with _ | ⟨k, rest⟩
    · simp
    · by_cases same : k = i
      · subst same
        simp [findSlot_onlyChild, step]
      · simp [findSlot_onlyChild, same, miss]
  · have different : i ≠ j := apart j right rfl
    refine find_wrap_of_below (fun rest => ?_) key
    rcases rest with _ | ⟨k, rest⟩
    · simp [find_extension, strip, List.dropPrefix?]
    · by_cases same : k = i
      · subst same
        simp [different, step]
      · rw [find_branch_cons, Function.update_of_ne same, findSlot_onlyChild]
        by_cases atNew : k = j <;> simp [same, atNew, miss, Ne.symm different]

/-- With every shared path kept, insertion is exactly a point update. -/
theorem find_insertTree (t : Tree ι α) (key : List ι) (new : α) (k : List ι) :
    find (insertTree wrap t key new) k = if k = key then some new else find t k := by
  induction t using Tree.induct generalizing key k with
  | leaf path old =>
    obtain ⟨common, left, right, rfl, rfl, length, apart⟩ := sharedLen_split path key
    rw [insertTree_leaf _ _ _ length, find_partLeaf old new apart]
  | extension path child ih =>
    obtain ⟨common, left, right, rfl, rfl, length, apart⟩ := sharedLen_split path key
    rcases left with _ | ⟨i, left⟩
    · rw [List.append_nil] at length ⊢
      rw [insertTree_extension_through _ _ _ length, find_extension, find_extension]
      cases here : strip common k with
      | none => rw [if_neg (strip_none_ne here right)]; rfl
      | some rest =>
        rw [strip_eq_some_iff] at here
        subst here
        simp only [Option.bind_some, List.append_cancel_left_eq]
        exact ih right rest
    · rw [insertTree_extension_part _ _ _ length]
      exact find_partExtension child new (fun j r here => apart i left j r rfl here) k
  | branch children value ih =>
    cases key with
    | nil => cases k <;> simp
    | cons i key =>
      cases k with
      | nil => simp
      | cons j k =>
        by_cases same : j = i
        · subst same
          cases slot : children j with
          | none => simp [slot]
          | some child => simp [slot, ih j child slot]
        · simp [Function.update_of_ne, same]

end Lookup

section NormalForm

omit [DecidableEq ι] in
theorem canonical_branch_two {children : ι → Option (Tree ι α)} {i j : ι} {s t : Tree ι α} (different : i ≠ j)
    (first : children i = some s) (second : children j = some t)
    (canonical : ∀ k child, children k = some child → Canonical child) : Canonical (.branch children none) :=
  .branch (.inl ⟨i, j, different, by simp [first], by simp [second]⟩) canonical

theorem onlyChild_eq_some {i j : ι} {s t : Tree ι α} (here : onlyChild i s j = some t) : j = i ∧ s = t := by
  by_cases same : j = i
  · subst same
    simpa [onlyChild] using here
  · simp [onlyChild, same] at here

theorem canonical_branch_onlyChild (i : ι) {t : Tree ι α} (value : α) (canonical : Canonical t) :
    Canonical (.branch (onlyChild i t) (some value)) := by
  refine .branch (.inr ⟨rfl, i, by simp [onlyChild]⟩) fun j child here => ?_
  rw [← (onlyChild_eq_some here).2]
  exact canonical

theorem canonical_branch_pair {i j : ι} {s t : Tree ι α} (different : i ≠ j) (first : Canonical s)
    (second : Canonical t) : Canonical (.branch (Function.update (onlyChild i s) j (some t)) none) := by
  refine canonical_branch_two (s := s) (t := t) different ?_ ?_ ?_
  · simp [Function.update_of_ne different, onlyChild]
  · simp
  · intro k child here
    by_cases same : k = j
    · subst same
      rw [Function.update_self] at here
      exact Option.some.inj here ▸ second
    · rw [Function.update_of_ne same] at here
      exact (onlyChild_eq_some here).2 ▸ first

omit [DecidableEq ι] in
theorem canonical_child {path : List ι} {child : Tree ι α} (canonical : Canonical (.extension path child)) :
    ∃ children value, child = .branch children value ∧ Canonical (.branch children value) := by
  cases canonical with
  | extension _ branch => exact ⟨_, _, rfl, branch⟩

variable {keep : List ι → Tree ι α → Tree ι α}

theorem canonical_partLeaf {common left right : List ι} (old new : α)
    (keeps : ∀ path children value, Canonical (.branch children value) →
      Canonical (keep path (.branch children value)))
    (apart : ∀ i l j r, left = i :: l → right = j :: r → i ≠ j) :
    Canonical (partLeaf keep common left old right new) := by
  rcases left with _ | ⟨i, left⟩ <;> rcases right with _ | ⟨j, right⟩
  · exact .leaf
  · exact keeps _ _ _ (canonical_branch_onlyChild j old .leaf)
  · exact keeps _ _ _ (canonical_branch_onlyChild i new .leaf)
  · exact canonical_wrap (canonical_branch_pair (apart i left j right rfl rfl) .leaf .leaf)

theorem canonical_partExtension {common left right : List ι} {i : ι} {child : Tree ι α} (new : α)
    (canonical : Canonical (.extension (common ++ i :: left) child))
    (apart : ∀ j r, right = j :: r → i ≠ j) : Canonical (partExtension common i left child right new) := by
  obtain ⟨children, value, rfl, branch⟩ := canonical_child canonical
  have below : Canonical (wrap left (.branch children value)) := canonical_wrap branch
  rcases right with _ | ⟨j, right⟩
  · exact canonical_wrap (canonical_branch_onlyChild i new below)
  · exact canonical_wrap (canonical_branch_pair (Ne.symm (apart j right rfl)) .leaf below)

/-- A branch stays one when a child is replaced or filled. -/
theorem Forks.update {children : ι → Option (Tree ι α)} {value : Option α} (forks : Forks children value)
    (i : ι) (t : Tree ι α) : Forks (Function.update children i (some t)) value := by
  have stays : ∀ j, (children j).isSome → (Function.update children i (some t) j).isSome := by
    intro j occupied
    by_cases same : j = i
    · subst same
      simp
    · rwa [Function.update_of_ne same]
  rcases forks with ⟨j, k, different, first, second⟩ | ⟨held, j, occupied⟩
  · exact .inl ⟨j, k, different, stays j first, stays k second⟩
  · exact .inr ⟨held, j, stays j occupied⟩

omit [DecidableEq ι] in
theorem Forks.setValue {children : ι → Option (Tree ι α)} {value : Option α} (forks : Forks children value)
    (new : α) : Forks children (some new) := by
  rcases forks with pair | ⟨_, occupied⟩
  · exact .inl pair
  · exact .inr ⟨rfl, occupied⟩

theorem insertTree_branch_shape (keep : List ι → Tree ι α → Tree ι α) (children : ι → Option (Tree ι α)) (value : Option α) (key : List ι) (new : α) :
    ∃ children' value', insertTree keep (.branch children value) key new = .branch children' value' := by
  cases key with
  | nil => exact ⟨_, _, rfl⟩
  | cons i key => exact ⟨_, _, rfl⟩

/-- Insertion keeps the normal form, whatever is done with a path that ends in a branch value. -/
theorem Canonical.insertTree (keeps : ∀ path children value, Canonical (.branch children value) →
    Canonical (keep path (.branch children value))) {t : Tree ι α} (canonical : Canonical t) (key : List ι)
    (new : α) : Canonical (Radix.insertTree keep t key new) := by
  induction t using Tree.induct generalizing key with
  | leaf path old =>
    obtain ⟨common, left, right, rfl, rfl, length, apart⟩ := sharedLen_split path key
    rw [insertTree_leaf _ _ _ length]
    exact canonical_partLeaf old new keeps apart
  | extension path child ih =>
    obtain ⟨common, left, right, rfl, rfl, length, apart⟩ := sharedLen_split path key
    rcases left with _ | ⟨i, left⟩
    · rw [List.append_nil] at length canonical ⊢
      obtain ⟨children, value, rfl, branch⟩ := canonical_child canonical
      rw [insertTree_extension_through _ _ _ length]
      obtain ⟨children', value', shape⟩ := insertTree_branch_shape keep children value right new
      have below := ih branch right
      rw [shape] at below ⊢
      cases canonical with
      | extension nonempty _ => exact .extension nonempty below
    · rw [insertTree_extension_part _ _ _ length]
      exact canonical_partExtension new canonical fun j r here => apart i left j r rfl here
  | branch children value ih =>
    cases canonical with
    | branch forks below =>
      cases key with
      | nil => exact .branch (forks.setValue new) below
      | cons i key =>
        refine .branch (forks.update i _) fun j child here => ?_
        by_cases same : j = i
        · subst same
          rw [Function.update_self, Option.some.injEq] at here
          subst here
          cases slot : children j with
          | none => exact .leaf
          | some child => exact ih j child slot (below j child slot) key
        · rw [Function.update_of_ne same] at here
          exact below j child here

end NormalForm

section Dropping

mutual
/-- The leaf at which the walk of a word ends: its path and what is left of the word. -/
def landing : Tree ι α → List ι → Option (List ι × List ι)
  | .leaf path _, key => some (path, key)
  | .extension path child, key =>
    match strip path key with
    | some rest => landing child rest
    | none => none
  | .branch _ _, [] => none
  | .branch children _, i :: key => landingSlot (children i) key

def landingSlot : Option (Tree ι α) → List ι → Option (List ι × List ι)
  | none, _ => none
  | some t, key => landing t key
end

/-- One of two different words starts with the other, which is not empty. -/
def Nested (path rest : List ι) : Prop :=
  path ≠ rest ∧ path ≠ [] ∧ rest ≠ [] ∧ (path <+: rest ∨ rest <+: path)

instance (path rest : List ι) : Decidable (Nested path rest) :=
  inferInstanceAs (Decidable (path ≠ rest ∧ path ≠ [] ∧ rest ≠ [] ∧ (path <+: rest ∨ rest <+: path)))

/-- Inserting the word splits a leaf at a nonempty path at which one of the two words ends. -/
def Loses (slot : Option (Tree ι α)) (key : List ι) : Prop :=
  ∃ path rest, landingSlot slot key = some (path, rest) ∧ Nested path rest

theorem landing_extension_append (path : List ι) (child : Tree ι α) (rest : List ι) :
    landing (.extension path child) (path ++ rest) = landing child rest := by
  rw [landing, strip_append]

/-- Drops the path shared by a leaf and a word that ends in the same branch. -/
def dropPath : List ι → Tree ι α → Tree ι α := fun _ t => t

theorem partLeaf_dropPath {common left right : List ι} (old new : α)
    (nested : ¬ Nested (common ++ left) (common ++ right)) :
    partLeaf dropPath common left old right new = partLeaf wrap common left old right new := by
  rcases left with _ | ⟨i, left⟩ <;> rcases right with _ | ⟨j, right⟩
  · rfl
  · rcases common with _ | ⟨c, common⟩
    · rfl
    · exact absurd ⟨by simp, by simp, by simp, .inl (by simp)⟩ nested
  · rcases common with _ | ⟨c, common⟩
    · rfl
    · exact absurd ⟨by simp, by simp, by simp, .inr (by simp)⟩ nested
  · rfl

/-- Away from nested leaves nothing is dropped. -/
theorem insertTree_dropPath {t : Tree ι α} {key : List ι} (safe : ¬ Loses (some t) key) (new : α) :
    insertTree dropPath t key new = insertTree wrap t key new := by
  induction t using Tree.induct generalizing key with
  | leaf path old =>
    have apart : ¬ Nested path key := fun nested => safe ⟨path, key, rfl, nested⟩
    obtain ⟨common, left, right, rfl, rfl, length, _⟩ := sharedLen_split path key
    rw [insertTree_leaf _ _ _ length, insertTree_leaf _ _ _ length, partLeaf_dropPath old new apart]
  | extension path child ih =>
    obtain ⟨common, left, right, rfl, rfl, length, _⟩ := sharedLen_split path key
    rcases left with _ | ⟨i, left⟩
    · rw [List.append_nil] at length safe ⊢
      rw [insertTree_extension_through _ _ _ length, insertTree_extension_through _ _ _ length]
      have below : ¬ Loses (some child) right := by
        rintro ⟨path, rest, lands, nested⟩
        exact safe ⟨path, rest, by rw [landingSlot, landing_extension_append]; exact lands, nested⟩
      rw [ih below]
    · rw [insertTree_extension_part _ _ _ length, insertTree_extension_part _ _ _ length]
  | branch children value ih =>
    cases key with
    | nil => rfl
    | cons i key =>
      rw [insertTree_branch_cons, insertTree_branch_cons]
      cases slot : children i with
      | none => rfl
      | some child =>
        have below : ¬ Loses (some child) key := by
          rintro ⟨path, rest, lands, nested⟩
          exact safe ⟨path, rest, by rw [landingSlot, landing, slot]; exact lands, nested⟩
        rw [insertSlot_some, insertSlot_some, ih i child slot below]

theorem findSlot_onlyChild_leaf_long (i : ι) (path : List ι) (value : α) (j : ι) {key : List ι}
    (longer : path.length < key.length) : findSlot (onlyChild i (.leaf path value) j) key = none := by
  rw [findSlot_onlyChild]
  split
  · have different : key ≠ path := by
      rintro rfl
      omega
    simp [different]
  · rfl

/-- Splitting a nested leaf without its path leaves the longer of the two words unreachable. -/
theorem partLeaf_dropPath_lost {common left right : List ι} (old new : α)
    (nested : Nested (common ++ left) (common ++ right))
    (apart : ∀ i l j r, left = i :: l → right = j :: r → i ≠ j) :
    ∃ k, find (partLeaf dropPath common left old right new) k ≠
      if k = common ++ right then some new else find (.leaf (common ++ left) old) k := by
  obtain ⟨different, leftNonempty, rightNonempty, either⟩ := nested
  rcases left with _ | ⟨i, left⟩ <;> rcases right with _ | ⟨j, right⟩
  · exact absurd rfl different
  · rcases common with _ | ⟨c, common⟩
    · exact absurd rfl leftNonempty
    · refine ⟨c :: common ++ j :: right, ?_⟩
      have lost : findSlot (onlyChild j (.leaf right new) c) (common ++ j :: right) = none :=
        findSlot_onlyChild_leaf_long j right new c (by simp; omega)
      simp [partLeaf, dropPath, lost]
  · rcases common with _ | ⟨c, common⟩
    · exact absurd rfl rightNonempty
    · refine ⟨c :: common ++ i :: left, ?_⟩
      have lost : findSlot (onlyChild i (.leaf left old) c) (common ++ i :: left) = none :=
        findSlot_onlyChild_leaf_long i left old c (by simp; omega)
      simp [partLeaf, dropPath, lost]
  · have unequal := apart i left j right rfl rfl
    rcases either with ⟨rest, same⟩ | ⟨rest, same⟩
    · simp at same
      exact absurd same.1 unequal
    · simp at same
      exact absurd same.1.symm unequal

/-- At a nested leaf the dropped path shows: some word is no longer looked up as it should be. -/
theorem insertTree_dropPath_lost {t : Tree ι α} {key : List ι} (loses : Loses (some t) key) (new : α) :
    ∃ k, find (insertTree dropPath t key new) k ≠ if k = key then some new else find t k := by
  induction t using Tree.induct generalizing key with
  | leaf path old =>
    obtain ⟨path', rest, lands, nested⟩ := loses
    obtain ⟨rfl, rfl⟩ : path = path' ∧ key = rest := by simpa [landingSlot, landing] using lands
    obtain ⟨common, left, right, rfl, rfl, length, apart⟩ := sharedLen_split path key
    rw [insertTree_leaf _ _ _ length]
    exact partLeaf_dropPath_lost old new nested apart
  | extension path child ih =>
    obtain ⟨leafPath, rest, lands, nested⟩ := loses
    rw [landingSlot, landing] at lands
    cases here : strip path key with
    | none => simp [here] at lands
    | some below =>
      rw [here] at lands
      rw [strip_eq_some_iff] at here
      subst here
      obtain ⟨k, wrong⟩ := ih ⟨leafPath, rest, lands, nested⟩
      refine ⟨path ++ k, ?_⟩
      obtain ⟨common, left, right, first, second, length, apart⟩ := sharedLen_split path (path ++ below)
      obtain ⟨rfl, rfl⟩ : left = [] ∧ right = below := by
        subst first
        rw [List.append_assoc, List.append_cancel_left_eq] at second
        rcases left with _ | ⟨i, left⟩
        · exact ⟨rfl, by simpa using second.symm⟩
        · exact absurd rfl (apart i left i (left ++ below) rfl second.symm)
      rw [List.append_nil] at first
      subst first
      rw [insertTree_extension_through _ _ _ length]
      simpa using wrong
  | branch children value ih =>
    obtain ⟨leafPath, rest, lands, nested⟩ := loses
    cases key with
    | nil => simp [landingSlot, landing] at lands
    | cons i key =>
      rw [landingSlot, landing] at lands
      cases slot : children i with
      | none => simp [slot, landingSlot] at lands
      | some child =>
        rw [slot] at lands
        obtain ⟨k, wrong⟩ := ih i child slot ⟨leafPath, rest, lands, nested⟩
        exact ⟨i :: k, by simpa [slot] using wrong⟩

/-- The leaf at which a walk ends holds a whole word, and the walk is that of the key. -/
theorem landing_find {t : Tree ι α} {key path rest : List ι} (lands : landing t key = some (path, rest)) :
    ∃ above value, key = above ++ rest ∧ find t (above ++ path) = some value := by
  induction t using Tree.induct generalizing key with
  | leaf leafPath old =>
    obtain ⟨rfl, rfl⟩ : leafPath = path ∧ key = rest := by simpa [landing] using lands
    exact ⟨[], old, rfl, by simp⟩
  | extension path' child ih =>
    rw [landing] at lands
    cases here : strip path' key with
    | none => simp [here] at lands
    | some below =>
      rw [here] at lands
      rw [strip_eq_some_iff] at here
      obtain ⟨above, value, same, found⟩ := ih lands
      exact ⟨path' ++ above, value, by rw [here, same, List.append_assoc],
        by rw [List.append_assoc, find_extension_append, found]⟩
  | branch children value ih =>
    cases key with
    | nil => simp [landing] at lands
    | cons i key =>
      rw [landing] at lands
      cases slot : children i with
      | none => simp [slot, landingSlot] at lands
      | some child =>
        rw [slot, landingSlot] at lands
        obtain ⟨above, found, same, here⟩ := ih i child slot lands
        exact ⟨i :: above, found, by rw [same]; rfl, by simp [slot, here]⟩

/-- A losing insertion meets a word of the tree that is comparable with the new one. -/
theorem Loses.comparable {slot : Option (Tree ι α)} {key : List ι} (loses : Loses slot key) :
    ∃ other value, findSlot slot other = some value ∧ other ≠ key ∧ (other <+: key ∨ key <+: other) := by
  obtain ⟨path, rest, lands, different, _, _, either⟩ := loses
  cases slot with
  | none => simp [landingSlot] at lands
  | some t =>
    obtain ⟨above, value, rfl, found⟩ := landing_find lands
    refine ⟨above ++ path, value, found, by simpa using different, ?_⟩
    rcases either with first | second
    · exact .inl ((List.prefix_append_right_inj above).mpr first)
    · exact .inr ((List.prefix_append_right_inj above).mpr second)

end Dropping

end Radix
