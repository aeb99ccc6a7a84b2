import MiniEthNode.Rust.HashMap
import MiniEthNode.Rust.Outcome

namespace Rust.HashMap
variable {K V : Type} [DecidableEq K]

/-- An insertion into a cache. A cache that is full gives up the key that `keys` happens to yield
first, if it has one. -/
def insertEvicting (order : Iteration K) (capacity : Nat) (cache : HashMap K V) (key : K) (value : V) : HashMap K V :=
  let evicted := if cache.keys.card ≥ capacity then (order.entries cache).head?.map Prod.fst else none
  let kept := match evicted with
    | some key => cache.erase key
    | none => cache
  kept.insert key value

/-- Every entry is what the source answers for its key. -/
def Reflects {ε : Type} (cache : HashMap K V) (source : K → Outcome ε V) : Prop :=
  ∀ key value, cache.lookup key = some value → source key = .ok value

variable {order : Iteration K} {capacity : Nat} {cache : HashMap K V} {key : K} {value : V}

/-- The map before the insertion: one key is gone, or there was room, or there was nothing to give up. -/
theorem insertEvicting_cases (order : Iteration K) (capacity : Nat) (cache : HashMap K V) (key : K) (value : V) :
    (∃ victim held, cache.lookup victim = some held ∧
      insertEvicting order capacity cache key value = (cache.erase victim).insert key value) ∨
    (cache.keys.card < capacity ∨ cache.keys.card = 0) ∧
      insertEvicting order capacity cache key value = cache.insert key value := by
  unfold insertEvicting
  by_cases full : cache.keys.card ≥ capacity
  · cases entries : order.entries cache with
    | nil =>
      refine .inr ⟨.inr ?_, by simp [full]⟩
      rw [Finset.card_eq_zero, Finset.eq_empty_iff_forall_notMem]
      intro other member
      obtain ⟨held, found⟩ := Finmap.mem_iff.mp (Finmap.mem_keys.mp member)
      have visited := (order.mem_iff cache other held).mpr found
      rw [entries] at visited
      cases visited
    | cons entry rest =>
      refine .inl ⟨entry.1, entry.2, (order.mem_iff cache entry.1 entry.2).mp ?_, by simp [full]⟩
      rw [entries]
      exact List.mem_cons_self
  · exact .inr ⟨.inl (Nat.not_le.mp full), by simp [full]⟩

theorem lookup_insertEvicting {other : K} {held : V}
    (found : (insertEvicting order capacity cache key value).lookup other = some held) :
    other = key ∧ held = value ∨ cache.lookup other = some held := by
  rcases insertEvicting_cases order capacity cache key value with ⟨victim, _, _, same⟩ | ⟨_, same⟩
  · rw [same, lookup_insert_ite, lookup_erase_ite] at found
    split at found
    · rename_i here
      exact .inl ⟨here, (Option.some.inj found).symm⟩
    · split at found
      · cases found
      · exact .inr found
  · rw [same, lookup_insert_ite] at found
    split at found
    · rename_i here
      exact .inl ⟨here, (Option.some.inj found).symm⟩
    · exact .inr found

theorem Reflects.insertEvicting {ε : Type} {source : K → Outcome ε V} (reflects : cache.Reflects source)
    (order : Iteration K) (capacity : Nat) (true_entry : source key = .ok value) :
    (insertEvicting order capacity cache key value).Reflects source := by
  intro other held found
  rcases lookup_insertEvicting found with ⟨rfl, rfl⟩ | earlier
  · exact true_entry
  · exact reflects other held earlier

/-- A cache without room for a single entry holds one all the same. -/
theorem keys_card_insertEvicting_le (bounded : cache.keys.card ≤ max capacity 1) (order : Iteration K) (key : K)
    (value : V) : (insertEvicting order capacity cache key value).keys.card ≤ max capacity 1 := by
  rcases insertEvicting_cases order capacity cache key value with ⟨victim, held, found, same⟩ | ⟨room, same⟩
  · have shrunk := keys_card_erase found
    have grown := keys_card_insert_le (cache.erase victim) key value
    rw [same]
    omega
  · have grown := keys_card_insert_le cache key value
    rw [same]
    omega

end Rust.HashMap
