import MiniEthNode.Execution.Provider
import MiniEthNode.Trie.Root

namespace MiniEthNode
open Rust Rlp

/-- The item that `compute_state_root` stores for an account; the storage root is a placeholder. -/
def accountItem (info : Account) : RlpItem :=
  .list [toRlpItem info.nonce, toRlpItem info.balance, toRlpItem (FixedBytes.zero : B256), toRlpItem info.codeHash]

/-- One round of the loop of `compute_state_root`. -/
def insertAccount (stateTrie : MerkleTrie) (entry : Address × Account) : Outcome TrieError MerkleTrie := do
  let bytes ← (encode (accountItem entry.2) []).mapErr .encode
  stateTrie.insert entry.1.bytes bytes

/-- The trie that `compute_state_root` builds. -/
def stateTrie (host : Host) (provider : InMemoryProvider) : Outcome TrieError MerkleTrie :=
  (host.iteration.entries provider.state).foldlM insertAccount MerkleTrie.new

def computeStateRoot (host : Host) (provider : InMemoryProvider) : Outcome TrieError B256 := do
  let trie ← stateTrie host provider
  trie.rootHash host

/-- The key and the value of an account in the state trie. -/
def accountEntry (entry : Address × Account) : Bytes × Bytes := (entry.1.bytes, serialize (accountItem entry.2))

/-- The entries of a state trie: every account under the nibbles of its address. -/
def accountEntries (state : HashMap Address Account) : Finset (List Nibble × Bytes) :=
  state.keys.image fun address =>
    (nibblePath address.bytes, serialize (accountItem ((state.lookup address).getD Account.default)))

theorem insertAccount_eq (trie : MerkleTrie) (entry : Address × Account) :
    insertAccount trie entry = trie.insert (accountEntry entry).1 (accountEntry entry).2 := by
  rw [insertAccount, encode_eq, Outcome.mapErr_ok, Outcome.ok_bind, List.nil_append]
  rfl

theorem stateTrie_eq (host : Host) (provider : InMemoryProvider) : stateTrie host provider =
    MerkleTrie.new.insertMany ((host.iteration.entries provider.state).map accountEntry) := by
  have step : insertAccount = fun trie entry => trie.insert (accountEntry entry).1 (accountEntry entry).2 :=
    funext fun trie => funext fun entry => insertAccount_eq trie entry
  rw [stateTrie, MerkleTrie.insertMany, List.foldlM_map, step]

theorem accountEntries_nonempty (entries : List (Address × Account)) :
    ∀ entry ∈ entries.map accountEntry, entry.1 ≠ [] := by
  intro entry member
  obtain ⟨⟨address, _⟩, _, rfl⟩ := List.mem_map.mp member
  refine List.ne_nil_of_length_pos ?_
  rw [accountEntry, address.length_eq]
  decide

theorem accountEntries_prefixFree (entries : List (Address × Account)) :
    PrefixFree (entries.map accountEntry) := by
  intro first inFirst second inSecond start
  obtain ⟨⟨address, _⟩, _, rfl⟩ := List.mem_map.mp inFirst
  obtain ⟨⟨address', _⟩, _, rfl⟩ := List.mem_map.mp inSecond
  exact start.eq_of_length (address.length_eq.trans address'.length_eq.symm)

/-- Copying a map through an injective renaming of its keys. -/
theorem lookup_insertAll_accountEntry (order : Iteration Address) (state : HashMap Address Account)
    (key value : Bytes) : (HashMap.insertAll ∅ ((order.entries state).map accountEntry)).lookup key = some value ↔
      ∃ address info, state.lookup address = some info ∧ accountEntry (address, info) = (key, value) := by
  have distinct : (((order.entries state).map accountEntry).map Prod.fst).Nodup := by
    have injective : Function.Injective fun address : Address => address.bytes := fun _ _ => FixedBytes.ext
    have keys := (order.nodup state).map injective
    rw [List.map_map] at keys ⊢
    exact keys
  constructor
  · intro present
    rcases HashMap.mem_of_lookup_insertAll present with absent | member
    · simp at absent
    · obtain ⟨⟨address, info⟩, inside, same⟩ := List.mem_map.mp member
      exact ⟨address, info, (order.mem_iff state address info).mp inside, same⟩
  · rintro ⟨address, info, present, same⟩
    refine HashMap.lookup_insertAll_of_mem distinct ?_
    rw [← same]
    exact List.mem_map_of_mem ((order.mem_iff state address info).mpr present)

theorem nibbleEntries_accountEntry (order : Iteration Address) (state : HashMap Address Account) :
    nibbleEntries (HashMap.insertAll ∅ ((order.entries state).map accountEntry)) = accountEntries state := by
  refine Finset.ext ?_
  rintro ⟨word, value⟩
  rw [mem_nibbleEntries]
  simp only [lookup_insertAll_accountEntry, accountEntries, Finset.mem_image, Finmap.mem_keys, Prod.mk.injEq,
    accountEntry]
  constructor
  · rintro ⟨_, rfl, address, info, present, rfl, rfl⟩
    exact ⟨address, Finmap.mem_of_lookup_eq_some present, rfl, by rw [present]; rfl⟩
  · rintro ⟨address, inside, rfl, rfl⟩
    obtain ⟨info, present⟩ := Finmap.mem_iff.mp inside
    exact ⟨_, rfl, address, info, present, rfl, by rw [present]; rfl⟩

/-- The state root is a function of the accounts alone. -/
theorem computeStateRoot_eq (host : Host) (provider : InMemoryProvider) :
    computeStateRoot host provider = .ok (trieRoot host.keccak256 (accountEntries provider.state)) := by
  obtain ⟨trie, built, root⟩ := insertMany_rootHash host
    (accountEntries_nonempty (host.iteration.entries provider.state)) (accountEntries_prefixFree _)
  rw [computeStateRoot, stateTrie_eq, built, Outcome.ok_bind, root, nibbleEntries_accountEntry]

/-- The trie computes the structural composition of what was inserted into it: for prefix-free
keys its root is that of the last-write-wins map, hence the same for every order of insertion,
and the state root is that of the account map, in whatever order the map is iterated. -/
theorem root_eq_structural_composition (host : Host) :
    (∀ entries : List (Bytes × Bytes), (∀ entry ∈ entries, entry.1 ≠ []) → PrefixFree entries →
      ∃ trie, MerkleTrie.new.insertMany entries = .ok trie ∧
        trie.rootHash host = .ok (trieRoot host.keccak256 (nibbleEntries (HashMap.insertAll ∅ entries)))) ∧
    (∀ first second : List (Bytes × Bytes), (∀ entry ∈ first ++ second, entry.1 ≠ []) →
      PrefixFree first → PrefixFree second → HashMap.insertAll ∅ first = HashMap.insertAll ∅ second →
      ∃ trie trie', MerkleTrie.new.insertMany first = .ok trie ∧ MerkleTrie.new.insertMany second = .ok trie' ∧
        trie.rootHash host = trie'.rootHash host) ∧
    ∀ (order : Iteration Address) (provider : InMemoryProvider),
      computeStateRoot { host with iteration := order } provider =
        .ok (trieRoot host.keccak256 (accountEntries provider.state)) := by
  refine ⟨fun entries nonempty free => insertMany_rootHash host nonempty free, ?_,
    fun order provider => computeStateRoot_eq { host with iteration := order } provider⟩
  intro first second nonempty free free' same
  obtain ⟨trie, built, root⟩ := insertMany_rootHash host
    (fun entry member => nonempty entry (List.mem_append_left _ member)) free
  obtain ⟨trie', built', root'⟩ := insertMany_rootHash host
    (fun entry member => nonempty entry (List.mem_append_right _ member)) free'
  exact ⟨trie, trie', built, built', by rw [root, root', same]⟩

/-- Two keys that part at their first nibble; the only hashed string is their branch. -/
theorem root_twelve_thirtyfour :
    let digest : B256 := .ofNat 0x78e106a55ee9215e5a852f48a7c17793b352f0b6ffdd6477aec5f704f54f8450
    let host := Host.ofGraph [(toBeBytes 24 0xd780c33281aa80c33481bb80808080808080808080808080, digest)] []
    trieRoot host.keccak256 (nibbleEntries (HashMap.insertAll ∅ [([0x12], [0xaa]), ([0x34], [0xbb])])) = digest := by
  intro digest host
  obtain ⟨trie, built, root⟩ := (root_eq_structural_composition host).1
    [([0x12], [0xaa]), ([0x34], [0xbb])] (by decide) (by decide)
  have evaluated : (MerkleTrie.new.insertMany [([0x12], [0xaa]), ([0x34], [0xbb])] >>= (·.rootHash host)) =
      .ok digest := by decide +kernel
  rw [built, Outcome.ok_bind, root] at evaluated
  exact Outcome.ok.inj evaluated

end MiniEthNode
