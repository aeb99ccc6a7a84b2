import MiniEthNode.Execution.StateRoot
import MiniEthNode.Trie.Binding

namespace MiniEthNode
open Rust Rlp Radix

theorem shortFields_accountItem (info : Account) : ShortFields 4 (accountItem info) := by
  refine ⟨_, rfl, rfl, ?_⟩
  simp only [List.forall_mem_cons, List.not_mem_nil, false_implies, implies_true, and_true]
  exact ⟨shortField_u64 _, shortField_u128 _, shortField_fixedBytes _ (by decide),
    shortField_fixedBytes _ (by decide)⟩

theorem accountItem_length_lt (info : Account) : (serialize (accountItem info)).length < 200 :=
  ((shortFields_accountItem info).length_le (by decide)).trans_lt (by decide)

/-- The encoding of an account tells its nonce, balance and code hash. -/
theorem accountItem_inj {info info' : Account}
    (same : serialize (accountItem info) = serialize (accountItem info')) : info = info' := by
  have small := accountItem_length_lt info
  have small' := accountItem_length_lt info'
  have items := serialize_inj (by omega) (by omega) same
  simp only [accountItem, Item.list.injEq, List.cons.injEq, and_true] at items
  obtain ⟨nonce, balance, _, codeHash⟩ := items
  have nonces := toRlpItem_u64_inj nonce
  have balances := toRlpItem_u128_inj balance
  have codes := toRlpItem_fixedBytes_inj codeHash
  cases info
  cases info'
  simp_all

/-- The tree behind the state trie. -/
def stateTree (order : Iteration Address) (state : HashMap Address Account) : Option Patricia :=
  insertWords none ((order.entries state).map accountEntry)

theorem stateTrie_embedSlot (host : Host) (provider : InMemoryProvider) :
    stateTrie host provider = .ok ⟨embedSlot (stateTree host.iteration provider.state)⟩ := by
  rw [stateTrie_eq, insertMany_new (accountEntries_nonempty _), stateTree]

theorem findSlot_stateTree (order : Iteration Address) (state : HashMap Address Account) (word : List Nibble)
    (value : Bytes) : findSlot (stateTree order state) word = some value ↔
      ∃ address info, state.lookup address = some info ∧ word = nibblePath address.bytes ∧
        value = serialize (accountItem info) := by
  rw [stateTree, (accountEntries_prefixFree _).represents]
  simp only [lookup_insertAll_accountEntry, accountEntry, Prod.mk.injEq]
  constructor
  · rintro ⟨key, path, address, info, present, atKey, held⟩
    rw [← atKey] at path
    exact ⟨address, info, present, path, held.symm⟩
  · rintro ⟨address, info, present, path, held⟩
    exact ⟨_, path, address, info, present, rfl, held.symm⟩

theorem fits_stateTree {order : Iteration Address} {state : HashMap Address Account} {t : Patricia}
    (built : stateTree order state = some t) : Fits t := by
  refine ⟨canonical_insertWords (fun _ absent => by simp at absent) built, fun word value found => ?_⟩
  rw [← findSlot_some, ← built, findSlot_stateTree] at found
  obtain ⟨address, info, _, path, held⟩ := found
  have small := accountItem_length_lt info
  rw [path, held]
  refine ⟨serialize_ne_nil (by omega), ?_, by omega⟩
  rw [nibblePath_length, address.length_eq]
  decide

/-- The tree determines the accounts. -/
theorem stateTree_inj {first second : Iteration Address} {state state' : HashMap Address Account}
    (same : stateTree first state = stateTree second state') : state = state' := by
  have carried : ∀ {order order' : Iteration Address} {s s' : HashMap Address Account},
      stateTree order s = stateTree order' s' → ∀ address info, s.lookup address = some info →
      s'.lookup address = some info := by
    intro order order' s s' equal address info present
    have found := (findSlot_stateTree order s _ _).mpr ⟨address, info, present, rfl, rfl⟩
    rw [equal, findSlot_stateTree] at found
    obtain ⟨address', info', present', word, value⟩ := found
    rw [FixedBytes.ext (nibblePath_injective word), accountItem_inj value]
    exact present'
  refine Finmap.ext_lookup fun address => Option.ext fun info => ?_
  exact ⟨carried same address info, carried same.symm address info⟩

/-- Equal state roots are those of equal accounts, or else two different strings among the node
encodings hashed for the two tries have one digest. The maps may be iterated in different orders. -/
theorem computeStateRoot_binds (host : Host) (first second : Iteration Address) {p q : InMemoryProvider}
    {root : B256} (rootP : computeStateRoot { host with iteration := first } p = .ok root)
    (rootQ : computeStateRoot { host with iteration := second } q = .ok root) :
    p.state = q.state ∨ ∃ trieP trieQ, stateTrie { host with iteration := first } p = .ok trieP ∧
      stateTrie { host with iteration := second } q = .ok trieQ ∧
      ∃ x ∈ trieP.hashed host, ∃ y ∈ trieQ.hashed host, x ≠ y ∧ host.keccak256 x = host.keccak256 y := by
  rw [computeStateRoot, stateTrie_embedSlot, Outcome.ok_bind, rootHash_embedSlot, Outcome.ok.injEq] at rootP rootQ
  rcases root_inj host (fun _ => fits_stateTree) (fun _ => fits_stateTree) (rootP.trans rootQ.symm)
    with same | collision
  · exact .inl (stateTree_inj same)
  · exact .inr ⟨_, _, stateTrie_embedSlot _ p, stateTrie_embedSlot _ q, collision⟩

/-- The digests of the two leaves and the branch of a state with two accounts. -/
def twoAccountHost : Host := Host.ofGraph [
  (toBeBytes 40 0xf85f943111111111111111111111111111111111111111b848f846038203e8a00000000000000000 ++
      toBeBytes 40 0x000000000000000000000000000000000000000000000000a0c5d2460186f7233c927e7db2dcc703 ++
      toBeBytes 17 0xc0e500b653ca82273b7bfad8045d85a470,
    .ofNat 0xe04efaaedf4224123e5a5db915701d64ab1550f18e1104be6b8c107288a2dce4),
  (toBeBytes 40 0xf85d943222222222222222222222222222222222222222b846f8448005a000000000000000000000 ++
      toBeBytes 40 0x00000000000000000000000000000000000000000000a0c5d2460186f7233c927e7db2dcc703c0e5 ++
      toBeBytes 15 0x00b653ca82273b7bfad8045d85a470,
    .ofNat 0x983c4a78d3f4b56f48046587d080c09c9a1aeee014517c5dddb718c73e026ea6),
  (toBeBytes 40 0xf85180a0e04efaaedf4224123e5a5db915701d64ab1550f18e1104be6b8c107288a2dce4a0983c4a ++
      toBeBytes 40 0x78d3f4b56f48046587d080c09c9a1aeee014517c5dddb718c73e026ea68080808080808080808080 ++
      toBeBytes 3 0x808080,
    .ofNat 0xd0095578e2f5d3d7cfd92399181abe97c493388d660bf9c8c5b42f544008ec84)] []

/-- Two accounts written one after the other. -/
def twoAccountProvider (addresses : List (Nat × Account)) : InMemoryProvider :=
  addresses.foldl (fun provider entry => provider.setAccount (.ofNat entry.1) entry.2) .default

/-- The order in which the accounts were written does not show in the root. -/
theorem computeStateRoot_binds_two_accounts :
    let one : Nat × Account := (0x1111111111111111111111111111111111111111, ⟨1000, 3, Account.default.codeHash⟩)
    let two : Nat × Account := (0x2222222222222222222222222222222222222222, ⟨5, 0, Account.default.codeHash⟩)
    let p := twoAccountProvider [one, two]
    let q := twoAccountProvider [two, one]
    p.state = q.state ∨ ∃ trieP trieQ, stateTrie twoAccountHost p = .ok trieP ∧
      stateTrie twoAccountHost q = .ok trieQ ∧
      ∃ x ∈ trieP.hashed twoAccountHost, ∃ y ∈ trieQ.hashed twoAccountHost,
        x ≠ y ∧ twoAccountHost.keccak256 x = twoAccountHost.keccak256 y :=
  let root : B256 := .ofNat 0xd0095578e2f5d3d7cfd92399181abe97c493388d660bf9c8c5b42f544008ec84
  computeStateRoot_binds twoAccountHost twoAccountHost.iteration twoAccountHost.iteration
    (by decide +kernel : computeStateRoot twoAccountHost _ = .ok root) (by decide +kernel)

end MiniEthNode
