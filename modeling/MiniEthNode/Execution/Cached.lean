import MiniEthNode.Execution.BlockIndex
import MiniEthNode.Execution.Providers
import MiniEthNode.Rust.Cache

namespace MiniEthNode
open Rust

structure CachedProvider (T : Type) where
  inner : T
  blockCache : HashMap BlockNumber Block
  headerCache : HashMap B256 Header
  accountCache : HashMap Address Account
  capacity : Nat

namespace CachedProvider
variable {T : Type}

def new (inner : T) (capacity : Nat) : CachedProvider T := ⟨inner, ∅, ∅, ∅, capacity⟩

/-- One of the three caches. -/
structure Field (T K V : Type) where
  view : CachedProvider T → HashMap K V
  update : HashMap K V → CachedProvider T → CachedProvider T

def blocks : Field T BlockNumber Block := ⟨(·.blockCache), fun cache self => { self with blockCache := cache }⟩

def headers : Field T B256 Header := ⟨(·.headerCache), fun cache self => { self with headerCache := cache }⟩

def accounts : Field T Address Account := ⟨(·.accountCache), fun cache self => { self with accountCache := cache }⟩

/-- A call of the provider behind. -/
def onInner {α : Type} (call : Exec T ExecutionError α) : Exec (CachedProvider T) ExecutionError α :=
  Exec.focus (·.inner) (fun inner self => { self with inner := inner }) call

section Methods
variable {K V : Type} [DecidableEq K]

/-- Evict one key if the cache is full, and insert. -/
def fill (field : Field T K V) (order : Iteration K) (key : K) (value : V) :
    Exec (CachedProvider T) ExecutionError Unit :=
  Exec.modify fun self =>
    field.update (HashMap.insertEvicting order self.capacity (field.view self) key value) self

/-- The methods that look at the cache first and then ask the provider behind. -/
def cacheFirst (field : Field T K V) (order : Iteration K) (key : K) (call : Exec T ExecutionError V) :
    Exec (CachedProvider T) ExecutionError V := do
  -- the borrow of the cache ends here, before the provider behind is called
  let self ← Exec.get
  match (field.view self).lookup key with
  | some value => pure value
  | none =>
    let value ← onInner call
    fill field order key value
    pure value

/-- The methods that know the key only from what the provider behind returns. They ask it first, and
still return the cached value where there is one. -/
def innerFirst (field : Field T K V) (order : Iteration K) (keyOf : V → Outcome ExecutionError K)
    (call : Exec T ExecutionError V) : Exec (CachedProvider T) ExecutionError V := do
  let value ← onInner call
  let key ← Exec.lift (keyOf value)
  let self ← Exec.get
  match (field.view self).lookup key with
  | some cached => pure cached
  | none =>
    fill field order key value
    pure value

end Methods

instance [BlockProvider T] : BlockProvider (CachedProvider T) where
  getBlockByHash host orders hash :=
    innerFirst blocks orders.blocks (fun block => .ok block.header.number)
      (BlockProvider.getBlockByHash host orders hash)
  getBlockByNumber host orders number :=
    cacheFirst blocks orders.blocks number (BlockProvider.getBlockByNumber host orders number)

instance [HeaderProvider T] : HeaderProvider (CachedProvider T) where
  getHeaderByHash host orders hash :=
    cacheFirst headers orders.headers hash (HeaderProvider.getHeaderByHash host orders hash)
  getHeaderByNumber host orders number :=
    innerFirst headers orders.headers (fun header => (hashHeader host header).mapErr .rlp)
      (HeaderProvider.getHeaderByNumber host orders number)

instance [StateProvider T] : StateProvider (CachedProvider T) where
  getAccount host orders address :=
    cacheFirst accounts orders.accounts address (StateProvider.getAccount host orders address)
  getStorage host orders address slot := onInner (StateProvider.getStorage host orders address slot)

instance [TransactionProvider T] : TransactionProvider (CachedProvider T) where
  getBlockTransactions host orders blockNumber :=
    onInner (TransactionProvider.getBlockTransactions host orders blockNumber)
  getTransaction host orders hash := onInner (TransactionProvider.getTransaction host orders hash)

instance [ReceiptProvider T] : ReceiptProvider (CachedProvider T) where
  getReceipt host orders transactionHash := onInner (ReceiptProvider.getReceipt host orders transactionHash)

section Capacity
variable {K V : Type} [DecidableEq K]

/-- No cache holds more entries than it may. -/
structure Within (bound : Nat) (cached : CachedProvider T) : Prop where
  blocks : cached.blockCache.keys.card ≤ bound
  headers : cached.headerCache.keys.card ≤ bound
  accounts : cached.accountCache.keys.card ≤ bound

/-- What every call keeps. The one entry is that of a cache without any room. -/
def Bounded (capacity : Nat) (cached : CachedProvider T) : Prop :=
  cached.capacity = capacity ∧ cached.Within (max capacity 1)

variable {capacity : Nat} {field : Field T K V}

theorem bounded_new (inner : T) (capacity : Nat) : (new inner capacity).Bounded capacity :=
  ⟨rfl, Nat.zero_le _, Nat.zero_le _, Nat.zero_le _⟩

/-- Filling a cache keeps the bound of that cache, and of the others. -/
structure Field.Contained (field : Field T K V) : Prop where
  view : ∀ {capacity self}, Bounded capacity self → (field.view self).keys.card ≤ max capacity 1
  update : ∀ {capacity self cache}, Bounded capacity self → cache.keys.card ≤ max capacity 1 →
    Bounded capacity (field.update cache self)

theorem blocks_contained : (blocks : Field T _ _).Contained where
  view bounded := bounded.2.blocks
  update bounded smaller := ⟨bounded.1, smaller, bounded.2.headers, bounded.2.accounts⟩

theorem headers_contained : (headers : Field T _ _).Contained where
  view bounded := bounded.2.headers
  update bounded smaller := ⟨bounded.1, bounded.2.blocks, smaller, bounded.2.accounts⟩

theorem accounts_contained : (accounts : Field T _ _).Contained where
  view bounded := bounded.2.accounts
  update bounded smaller := ⟨bounded.1, bounded.2.blocks, bounded.2.headers, smaller⟩

theorem keeps_onInner {α : Type} (call : Exec T ExecutionError α) : Exec.Keeps (Bounded capacity) (onInner call) :=
  .focus (fun _ _ bounded => ⟨bounded.1, bounded.2.blocks, bounded.2.headers, bounded.2.accounts⟩) call

theorem keeps_fill (contained : field.Contained) (order : Iteration K) (key : K) (value : V) :
    Exec.Keeps (Bounded capacity) (fill field order key value) := by
  refine .modify fun self bounded => contained.update bounded ?_
  have before := contained.view bounded
  rw [bounded.1]
  exact HashMap.keys_card_insertEvicting_le before order key value

theorem keeps_cacheFirst (contained : field.Contained) (order : Iteration K) (key : K)
    (call : Exec T ExecutionError V) : Exec.Keeps (Bounded capacity) (cacheFirst field order key call) := by
  refine Exec.Keeps.get.bind fun self => ?_
  cases (field.view self).lookup key with
  | some value => exact .pure value
  | none => exact (keeps_onInner call).bind fun value => (keeps_fill contained order key value).bind fun _ => .pure value

theorem keeps_innerFirst (contained : field.Contained) (order : Iteration K)
    (keyOf : V → Outcome ExecutionError K) (call : Exec T ExecutionError V) :
    Exec.Keeps (Bounded capacity) (innerFirst field order keyOf call) := by
  refine (keeps_onInner call).bind fun value => (Exec.Keeps.lift _).bind fun key => Exec.Keeps.get.bind fun self => ?_
  cases (field.view self).lookup key with
  | some cached => exact .pure cached
  | none => exact (keeps_fill contained order key value).bind fun _ => .pure value

variable [BlockProvider T] [HeaderProvider T] [StateProvider T] [TransactionProvider T] [ReceiptProvider T]

theorem keeps_ask (host : Host) (orders : Orders) (query : Query) :
    Exec.Keeps (Bounded capacity) (ask host orders query : Exec (CachedProvider T) ExecutionError Answer) := by
  have account (address : Address) : Exec.Keeps (Bounded capacity)
      (StateProvider.getAccount host orders address : Exec (CachedProvider T) ExecutionError Account) :=
    keeps_cacheFirst accounts_contained _ _ _
  cases query with
  | blockByNumber number => exact (keeps_cacheFirst blocks_contained _ _ _).bind fun _ => .pure _
  | blockByHash hash => exact (keeps_innerFirst blocks_contained _ _ _).bind fun _ => .pure _
  | headerByNumber number => exact (keeps_innerFirst headers_contained _ _ _).bind fun _ => .pure _
  | headerByHash hash => exact (keeps_cacheFirst headers_contained _ _ _).bind fun _ => .pure _
  | account address => exact (account address).bind fun _ => .pure _
  | balance address => exact ((account address).bind fun _ => .pure _).bind fun _ => .pure _
  | nonce address => exact ((account address).bind fun _ => .pure _).bind fun _ => .pure _
  | storage address slot => exact (keeps_onInner _).bind fun _ => .pure _
  | transaction hash => exact (keeps_onInner _).bind fun _ => .pure _
  | blockTransactions blockNumber => exact (keeps_onInner _).bind fun _ => .pure _
  | receipt transactionHash => exact (keeps_onInner _).bind fun _ => .pure _

theorem keeps_askAll (host : Host) (calls : List (Orders × Query)) :
    Exec.Keeps (Bounded capacity) (askAll host calls : Exec (CachedProvider T) Empty _) := by
  induction calls with
  | nil => exact .pure []
  | cons call rest ih =>
    obtain ⟨orders, query⟩ := call
    exact (keeps_ask host orders query).attempt.bind fun answer => ih.bind fun answers => .pure (answer :: answers)

end Capacity

section Transparency
variable {K V : Type} [DecidableEq K] {host : Host} {field : Field InMemoryProvider K V}

/-- The provider behind is this one, and every cached entry is what it answers. -/
structure Mirrors (host : Host) (cached : CachedProvider InMemoryProvider) (provider : InMemoryProvider) : Prop where
  indexed : provider.Indexed host
  inner : cached.inner = provider
  blocks : cached.blockCache.Reflects provider.getBlockByNumber
  headers : cached.headerCache.Reflects provider.getHeaderByHash
  accounts : cached.accountCache.Reflects provider.getAccount

theorem mirrors_new {provider : InMemoryProvider} (indexed : provider.Indexed host) (capacity : Nat) :
    Mirrors host (new provider capacity) provider :=
  ⟨indexed, rfl, nofun, nofun, nofun⟩

/-- What a cache is a cache of. -/
structure Field.Tracks (host : Host) (field : Field InMemoryProvider K V)
    (source : InMemoryProvider → K → Outcome ExecutionError V) : Prop where
  view : ∀ {cached provider}, Mirrors host cached provider → (field.view cached).Reflects (source provider)
  update : ∀ {cached provider cache}, Mirrors host cached provider → cache.Reflects (source provider) →
    Mirrors host (field.update cache cached) provider

theorem blocks_tracks : blocks.Tracks host InMemoryProvider.getBlockByNumber where
  view mirrors := mirrors.blocks
  update mirrors reflects := ⟨mirrors.indexed, mirrors.inner, reflects, mirrors.headers, mirrors.accounts⟩

theorem headers_tracks : headers.Tracks host InMemoryProvider.getHeaderByHash where
  view mirrors := mirrors.headers
  update mirrors reflects := ⟨mirrors.indexed, mirrors.inner, mirrors.blocks, reflects, mirrors.accounts⟩

theorem accounts_tracks : accounts.Tracks host InMemoryProvider.getAccount where
  view mirrors := mirrors.accounts
  update mirrors reflects := ⟨mirrors.indexed, mirrors.inner, mirrors.blocks, mirrors.headers, reflects⟩

theorem onInner_read {α : Type} {cached : CachedProvider InMemoryProvider} {provider : InMemoryProvider}
    (mirrors : Mirrors host cached provider) (f : InMemoryProvider → Outcome ExecutionError α) :
    onInner (Exec.read f) cached = Exec.lift (f provider) cached := by
  obtain rfl := mirrors.inner
  unfold onInner Exec.focus Exec.read
  cases f cached.inner <;> rfl

theorem relates_onInner {α : Type} (f : InMemoryProvider → Outcome ExecutionError α) :
    Exec.Relates (Mirrors host) (onInner (Exec.read f)) (Exec.read f) := by
  intro cached provider mirrors
  rw [onInner_read mirrors]
  exact Exec.Relates.lift (f provider) cached provider mirrors

/-- Keeping an answer changes no answer. -/
theorem agree_fill {source : InMemoryProvider → K → Outcome ExecutionError V} (tracks : field.Tracks host source)
    {cached : CachedProvider InMemoryProvider} {provider : InMemoryProvider} (mirrors : Mirrors host cached provider)
    (order : Iteration K) {key : K} {value : V} (answers : source provider key = .ok value) :
    Exec.Agree (Mirrors host) ((do fill field order key value; pure value : Exec _ ExecutionError V) cached)
      (.ok (value, provider)) :=
  ⟨rfl, tracks.update mirrors ((tracks.view mirrors).insertEvicting order cached.capacity answers)⟩

theorem relates_cacheFirst {source : InMemoryProvider → K → Outcome ExecutionError V}
    (tracks : field.Tracks host source) (order : Iteration K) (key : K) :
    Exec.Relates (Mirrors host) (cacheFirst field order key (Exec.read fun provider => source provider key))
      (Exec.read fun provider => source provider key) := by
  intro cached provider mirrors
  rw [cacheFirst, Exec.get_bind]
  cases found : (field.view cached).lookup key with
  | some value =>
    rw [Exec.read, tracks.view mirrors key value found]
    exact ⟨rfl, mirrors⟩
  | none =>
    simp only
    rw [Exec.bind_run, onInner_read mirrors, Exec.read]
    cases answers : source provider key with
    | ok value => exact agree_fill tracks mirrors order answers
    | err e => exact ⟨rfl, mirrors⟩
    | panic => trivial

/-- An entry that is found under the derived key is what the provider behind has just returned. -/
theorem relates_innerFirst {source : InMemoryProvider → K → Outcome ExecutionError V}
    (tracks : field.Tracks host source) (order : Iteration K) {keyOf : V → Outcome ExecutionError K}
    {f : InMemoryProvider → Outcome ExecutionError V}
    (derived : ∀ {provider value}, provider.Indexed host → f provider = .ok value →
      ∃ key, keyOf value = .ok key ∧ source provider key = .ok value) :
    Exec.Relates (Mirrors host) (innerFirst field order keyOf (Exec.read f)) (Exec.read f) := by
  intro cached provider mirrors
  rw [innerFirst, Exec.bind_run, onInner_read mirrors, Exec.read]
  cases returned : f provider with
  | ok value =>
    obtain ⟨key, keyed, answers⟩ := derived mirrors.indexed returned
    simp only [Exec.lift_ok]
    rw [keyed, Exec.bind_ok (Exec.lift_ok key cached), Exec.get_bind]
    cases found : (field.view cached).lookup key with
    | some held =>
      -- the other path may have stored it: both store what the source answers for the key
      have same := (tracks.view mirrors key held found).symm.trans answers
      cases same
      exact ⟨rfl, mirrors⟩
    | none => exact agree_fill tracks mirrors order answers
  | err e => exact ⟨rfl, mirrors⟩
  | panic => trivial

theorem relates_getBlockByHash (order : Iteration BlockNumber) (hash : B256) :
    Exec.Relates (Mirrors host)
      (innerFirst blocks order (fun block => .ok block.header.number)
        (Exec.read fun provider => provider.getBlockByHash hash))
      (Exec.read fun provider => provider.getBlockByHash hash) := by
  refine relates_innerFirst blocks_tracks order fun {provider block} indexed found => ?_
  obtain ⟨number, _, stored⟩ := Outcome.bind_eq_ok.mp found
  refine ⟨number, ?_, stored⟩
  rw [indexed.numbered (Outcome.okOr_eq_ok.mp stored)]

theorem relates_getHeaderByNumber (order : Iteration B256) (number : BlockNumber) :
    Exec.Relates (Mirrors host)
      (innerFirst headers order (fun header => (hashHeader host header).mapErr .rlp)
        (Exec.read fun provider => provider.getHeaderByNumber number))
      (Exec.read fun provider => provider.getHeaderByNumber number) := by
  refine relates_innerFirst headers_tracks order fun {provider header} indexed found => ?_
  obtain ⟨block, stored, rfl⟩ := Option.map_eq_some_iff.mp (Outcome.okOr_eq_ok.mp found)
  refine ⟨headerHash host block.header, by rw [hashHeader_eq, Outcome.mapErr_ok], ?_⟩
  rw [InMemoryProvider.getHeaderByHash, indexed.hashed stored]
  exact found

theorem relates_ask (host : Host) (orders : Orders) (query : Query) :
    Exec.Relates (Mirrors host) (ask host orders query) (ask host orders query) := by
  have account (address : Address) : Exec.Relates (Mirrors host)
      (StateProvider.getAccount host orders address) (StateProvider.getAccount host orders address) :=
    relates_cacheFirst accounts_tracks orders.accounts address
  cases query with
  | blockByNumber number => exact (relates_cacheFirst blocks_tracks _ _).bind fun _ => .pure _
  | blockByHash hash => exact (relates_getBlockByHash _ hash).bind fun _ => .pure _
  | headerByNumber number => exact (relates_getHeaderByNumber _ number).bind fun _ => .pure _
  | headerByHash hash => exact (relates_cacheFirst headers_tracks _ _).bind fun _ => .pure _
  | account address => exact (account address).bind fun _ => .pure _
  | balance address => exact ((account address).bind fun _ => .pure _).bind fun _ => .pure _
  | nonce address => exact ((account address).bind fun _ => .pure _).bind fun _ => .pure _
  | storage address slot => exact (relates_onInner _).bind fun _ => .pure _
  | transaction hash => exact (relates_onInner _).bind fun _ => .pure _
  | blockTransactions blockNumber => exact (relates_onInner _).bind fun _ => .pure _
  | receipt transactionHash => exact (relates_onInner _).bind fun _ => .pure _

theorem relates_askAll (host : Host) (calls : List (Orders × Query)) :
    Exec.Relates (Mirrors host) (askAll host calls) (askAll host calls) := by
  induction calls with
  | nil => exact .pure []
  | cons call rest ih =>
    obtain ⟨orders, query⟩ := call
    exact (relates_ask host orders query).attempt.bind fun answer => ih.bind fun answers => .pure (answer :: answers)

end Transparency

end CachedProvider

/-- Whatever provider is behind the caches, and whatever is asked and evicted, they stay within a bound. -/
def CachedProvider.Confined (capacity bound : Nat) : Prop :=
  ∀ (host : Host) (T : Type) [BlockProvider T] [HeaderProvider T] [StateProvider T] [TransactionProvider T]
    [ReceiptProvider T] (inner : T) (calls : List (Orders × Query)) (answers : List (Except ExecutionError Answer))
    (after : CachedProvider T),
    askAll host calls (CachedProvider.new inner capacity) = .ok (answers, after) → after.Within bound

section Sample

/-- Maps that yield their least key first, and accounts in the order of the host. -/
def ascendingOrders (host : Host) : Orders where
  blocks := Iteration.ascending BitVec.toNat fun _ _ => BitVec.eq_of_toNat_eq
  headers := Iteration.ascending (fun hash => beValue hash.bytes) FixedBytes.beValue_injective
  accounts := host.iteration

def savingsProvider : InMemoryProvider :=
  (InMemoryProvider.default.setAccount (.ofNat 1) ⟨5, 0, .zero⟩).setAccount (.ofNat 2) ⟨7, 1, .zero⟩

def savingsCalls : List (Orders × Query) :=
  [.account (.ofNat 1), .nonce (.ofNat 2)].map fun query => (ascendingOrders (Host.ofGraph [] []), query)

/-- An empty map has no key to evict, so a capacity of zero does not keep the first account out. -/
theorem savings_kept : ∃ answers after,
    askAll (Host.ofGraph [] []) (savingsCalls.take 1) (CachedProvider.new savingsProvider 0) = .ok (answers, after) ∧
      after.capacity = 0 ∧ after.accountCache.keys.card = 1 :=
  ⟨_, _, rfl, rfl, by decide +kernel⟩

end Sample

/-- There is always room for one entry. So the capacity is a bound exactly if it is not zero. -/
theorem cached_within_capacity (capacity : Nat) :
    CachedProvider.Confined capacity (max capacity 1) ∧ (CachedProvider.Confined capacity capacity ↔ 0 < capacity) := by
  have bounded : CachedProvider.Confined capacity (max capacity 1) := by
    intro host T _ _ _ _ _ inner calls answers after asked
    exact (CachedProvider.keeps_askAll host calls _ (CachedProvider.bounded_new inner capacity) after
      (by rw [asked, Exec.final])).2
  refine ⟨bounded, fun confined => Nat.pos_of_ne_zero ?_, fun room => ?_⟩
  · rintro rfl
    obtain ⟨answers, after, asked, _, held⟩ := savings_kept
    have within := (confined _ _ savingsProvider _ answers after asked).accounts
    rw [held] at within
    exact absurd within (by decide)
  · have enough : max capacity 1 = capacity := Nat.max_eq_left room
    rwa [enough] at bounded

section Sample

theorem cached_within_capacity_one : ∃ answers after,
    askAll (Host.ofGraph [] []) savingsCalls (CachedProvider.new savingsProvider 1) = .ok (answers, after) ∧
    answers = [.ok (.account ⟨5, 0, .zero⟩), .ok (.nonce 1)] ∧ after.Within 1 := by
  have asked : ∃ answers after,
      askAll (Host.ofGraph [] []) savingsCalls (CachedProvider.new savingsProvider 1) = .ok (answers, after) ∧
      answers = [.ok (.account ⟨5, 0, .zero⟩), .ok (.nonce 1)] := ⟨_, _, rfl, by decide +kernel⟩
  obtain ⟨answers, after, ran, same⟩ := asked
  exact ⟨answers, after, ran, same, (cached_within_capacity 1).1 _ _ savingsProvider _ answers after ran⟩

theorem cached_without_capacity : ∃ answers after,
    askAll (Host.ofGraph [] []) (savingsCalls.take 1) (CachedProvider.new savingsProvider 0) = .ok (answers, after) ∧
      after.capacity = 0 ∧ after.accountCache.keys.card = 1 ∧ ¬ after.Within 0 := by
  obtain ⟨answers, after, asked, capacity, held⟩ := savings_kept
  refine ⟨answers, after, asked, capacity, held, fun within => ?_⟩
  have bound := within.accounts
  rw [held] at bound
  exact absurd bound (by decide)

end Sample

/-- Behind the caches, every query is answered as by the provider itself. -/
theorem cached_transparent (host : Host) {updates : List Update}
    (distinct : ∀ first second, .block first ∈ updates → .block second ∈ updates →
      hashHeader host first.header = hashHeader host second.header → first.header = second.header) :
    ∃ inner, InMemoryProvider.updateAll host updates InMemoryProvider.default = .ok ((), inner) ∧
      ∀ capacity calls, ∃ answers after, askAll host calls (CachedProvider.new inner capacity) = .ok (answers, after) ∧
        askAll host calls inner = .ok (answers, inner) := by
  obtain ⟨inner, built, indexed⟩ := InMemoryProvider.built_indexed distinct
  refine ⟨inner, built, fun capacity calls => ?_⟩
  rcases InMemoryProvider.askAll_readOnly host calls inner with ⟨answers, asked⟩ | ⟨e, _⟩
  · have agree := CachedProvider.relates_askAll host calls _ _ (CachedProvider.mirrors_new indexed capacity)
    rw [asked] at agree
    rcases agree.inv with ⟨same, after, _, left, right, _⟩ | ⟨e, _⟩ | ⟨_, right⟩
    · cases right
      exact ⟨answers, after, left, asked⟩
    · exact e.elim
    · cases right
  · exact e.elim

section Sample

def replacedUpdates : List Update :=
  [.block (numberedBlock 0), .block (numberedBlock 1), .state (.account (.ofNat 1) ⟨5, 0, .zero⟩)]

/-- Two blocks of one number, asked for on both paths with room for a single entry. -/
theorem cached_transparent_replaced : ∃ inner answers after,
    InMemoryProvider.updateAll numberedHost replacedUpdates InMemoryProvider.default = .ok ((), inner) ∧
    let calls := [.blockByHash (headerHash numberedHost (numberedBlock 0).header), .headerByNumber 2,
      .headerByHash (headerHash numberedHost (numberedBlock 1).header), .blockByNumber 2, .balance (.ofNat 2)].map
        fun query => (ascendingOrders numberedHost, query)
    askAll numberedHost calls (CachedProvider.new inner 1) = .ok (answers, after) ∧
      askAll numberedHost calls inner = .ok (answers, inner) := by
  have apart : hashHeader numberedHost (numberedBlock 0).header ≠ hashHeader numberedHost (numberedBlock 1).header := by
    decide +kernel
  have distinct : ∀ first second, .block first ∈ replacedUpdates → .block second ∈ replacedUpdates →
      hashHeader numberedHost first.header = hashHeader numberedHost second.header → first.header = second.header := by
    intro first second member member' same
    simp only [replacedUpdates, List.mem_cons, Update.block.injEq, reduceCtorEq, List.not_mem_nil, or_false]
      at member member'
    rcases member with rfl | rfl <;> rcases member' with rfl | rfl
    · rfl
    · exact absurd same apart
    · exact absurd same.symm apart
    · rfl
  obtain ⟨inner, built, transparent⟩ := cached_transparent numberedHost distinct
  obtain ⟨answers, after, asked, plain⟩ := transparent 1 _
  exact ⟨inner, answers, after, built, asked, plain⟩

end Sample

end MiniEthNode
