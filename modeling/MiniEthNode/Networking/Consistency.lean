import MiniEthNode.Networking.Detailed
import MiniEthNode.Networking.TestClient

namespace MiniEthNode
open Rust

def ProcessorMessage.query : ProcessorMessage → Option Address
  | getAccountState address => some address
  | newBlock .. | shutdown => none

def ProcessorPoint.query : ProcessorPoint → List Address
  | answer address => [address]
  | receive | handle .. | tryDrain _ | drain .. | process .. | turn .. | ended => []

/-- The other tasks leave the adapter alone. Only the end of the main task adds to its queue. -/
theorem Node.step_apart {host : Host} {chainId : U64} {node next : Node} {action : NodeAction}
    (stepped : node.step host chainId action = some next) (adapter : ∀ own, action ≠ .adapter own)
    (processor : action ≠ .processed) :
    next.adapter = node.adapter ∧ next.response = node.response ∧
      (next.requests.items = node.requests.items ∨ next.requests.items = node.requests.items ++ [.shutdown]) := by
  have steps := Node.step_steps stepped
  cases action with
  | adapter own => exact absurd rfl (adapter own)
  | processed => exact absurd rfl processor
  | accepted =>
    obtain ⟨_, stepped⟩ := Option.ite_none_right_eq_some.mp stepped
    obtain ⟨counter, _, rfl⟩ := Option.map_eq_some_iff.mp stepped
    exact ⟨rfl, rfl, .inl rfl⟩
  | connection peerId own =>
    cases steps with
    | outside | took | emitted | unemitted => exact ⟨rfl, rfl, .inl rfl⟩
    | aside noConnection => exact absurd rfl (noConnection peerId own)
  | manager own =>
    cases steps with
    | received | ticked | iterated | shutdown | enqueued | unqueued | forwarded | unforwarded =>
      exact ⟨rfl, rfl, .inl rfl⟩
    | aside _ noManager => exact absurd rfl (noManager own)
  | signalled =>
    obtain ⟨_, same⟩ := Option.ite_none_left_eq_some.mp stepped
    cases same
    exact ⟨rfl, rfl, .inl rfl⟩
  | unlistened =>
    obtain ⟨_, same⟩ := Option.ite_none_right_eq_some.mp stepped
    cases same
    exact ⟨rfl, rfl, .inl rfl⟩
  | finished isOk =>
    obtain ⟨_, requests, sent, rfl⟩ := finish_sends stepped
    cases isOk with
    | false => exact ⟨rfl, rfl, .inl (sent.trans (List.append_nil _))⟩
    | true => exact ⟨rfl, rfl, .inr sent⟩

namespace DetailedNode

/-- The account queries on their way to an answer. -/
def queries (detailed : DetailedNode) : List Address :=
  detailed.point.query ++ detailed.node.requests.items.filterMap ProcessorMessage.query

/-- The latest answer of the processor. -/
def LastAnswer (actions : List DetailedAction) (address : Address) (response : Except ProcessorError Account) : Prop :=
  ∃ first second, actions = first ++ .answered address response :: second ∧
    ∀ other response', DetailedAction.answered other response' ∉ second

/-- No query is on its way. -/
structure Quiet (detailed : DetailedNode) : Prop where
  response : detailed.node.response = none
  queries : detailed.node.processing = true → detailed.queries = []

/-- What an account response of the adapter is made of. -/
def Quotes (actions : List DetailedAction) (message : Message) : Prop :=
  ∀ address nonce balance, message = .accountState address nonce balance →
    ∃ account, LastAnswer actions address (.ok account) ∧ account.nonce = nonce ∧ account.balance = balance

/-- The adapter has at most one query on its way, and gets the answer to that one. -/
def Paired (actions : List DetailedAction) (detailed : DetailedNode) : Prop :=
  match detailed.node.adapter with
  | .await address _ =>
    (detailed.node.response = none ∧ (detailed.node.processing = true → detailed.queries = [address])) ∨
      ∃ response, detailed.node.response = some response ∧ LastAnswer actions address response ∧
        (detailed.node.processing = true → detailed.queries = [])
  | .reply _ message => detailed.Quiet ∧ Quotes actions message
  | .receive | .submit .. | .query .. | .readHead _ | .ended => detailed.Quiet

section Paired
variable {host : Host} {chainId : U64} {detailed next : DetailedNode} {action : DetailedAction}
  {actions : List DetailedAction}

theorem LastAnswer.concat {address : Address} {response : Except ProcessorError Account}
    (answer : LastAnswer actions address response) (other : ∀ address response, action ≠ .answered address response) :
    LastAnswer (actions ++ [action]) address response := by
  obtain ⟨first, second, rfl, latest⟩ := answer
  refine ⟨first, second ++ [action], by simp, fun address' response' member => ?_⟩
  rcases List.mem_append.mp member with earlier | last
  · exact latest address' response' earlier
  · exact other address' response' (List.mem_singleton.mp last).symm

/-- What the task of the processor leaves as it is. -/
theorem Paired.kept (paired : detailed.Paired actions)
    (other : ∀ address response, action ≠ .answered address response)
    (adapter : next.node.adapter = detailed.node.adapter) (response : next.node.response = detailed.node.response)
    (queries : next.node.processing = true → detailed.node.processing = true ∧ next.queries = detailed.queries) :
    next.Paired (actions ++ [action]) := by
  have quiet (quiet : detailed.Quiet) : next.Quiet :=
    ⟨response.trans quiet.response, fun running => (queries running).2.trans (quiet.queries (queries running).1)⟩
  unfold Paired at paired ⊢
  rw [adapter]
  cases waits : detailed.node.adapter with
  | await address peerId =>
    rw [waits] at paired
    rw [response]
    rcases paired with ⟨absent, waiting⟩ | ⟨answer, present, last, rest⟩
    · exact .inl ⟨absent, fun running => (queries running).2.trans (waiting (queries running).1)⟩
    · exact .inr ⟨answer, present, last.concat other,
        fun running => (queries running).2.trans (rest (queries running).1)⟩
  | reply peerId message =>
    rw [waits] at paired
    refine ⟨quiet paired.1, fun address nonce balance same => ?_⟩
    obtain ⟨account, last, equal⟩ := paired.2 address nonce balance same
    exact ⟨account, last.concat other, equal⟩
  | receive | submit | query | readHead | ended =>
    rw [waits] at paired
    exact quiet paired

/-- One more message in the queue. -/
theorem queries_sent {node : Node} {message : ProcessorMessage}
    (sent : node.requests.items = detailed.node.requests.items ++ [message]) :
    queries { detailed with node := node } = detailed.queries ++ message.query.toList := by
  unfold queries
  dsimp only
  rw [sent, List.filterMap_append, List.append_assoc]
  cases message <;> rfl

/-- A step of the adapter. -/
theorem Paired.adapter {node : Node} {own : AdapterAction} (paired : detailed.Paired actions)
    (steps : detailed.node.AdapterSteps own node) (other : ∀ address response, action ≠ .answered address response) :
    Paired (actions ++ [action]) { detailed with node := node } := by
  have point := AdapterPoint.step_steps steps.moved
  unfold Paired at paired ⊢
  dsimp only
  generalize detailed.node.adapter = here at point paired
  generalize node.adapter = there at point ⊢
  cases point with
  | closed | newBlock | getAccountState | getChainHead =>
    cases steps
    exact ⟨paired.response, paired.queries⟩
  | submitted =>
    cases steps with
    | submitted _ sent =>
      refine ⟨paired.response, fun running => ?_⟩
      rw [queries_sent sent, paired.queries running]
      rfl
    | unsubmitted => exact ⟨paired.response, paired.queries⟩
  | queried =>
    cases steps with
    | submitted _ sent =>
      refine .inl ⟨paired.response, fun running => ?_⟩
      rw [queries_sent sent, paired.queries running]
      rfl
  | unqueried =>
    cases steps
    exact ⟨paired.response, paired.queries⟩
  | answered =>
    cases steps with
    | answered _ present =>
      rcases paired with ⟨absent, _⟩ | ⟨response, present', last, none⟩
      · cases present.symm.trans absent
      · cases present.symm.trans present'
        refine ⟨⟨rfl, none⟩, fun address nonce balance same => ?_⟩
        cases same
        exact ⟨_, last.concat other, rfl, rfl⟩
  | refused =>
    cases steps with
    | answered _ present =>
      rcases paired with ⟨absent, _⟩ | ⟨_, _, _, none⟩
      · cases present.symm.trans absent
      · exact ⟨rfl, none⟩
  | dropped =>
    cases steps with
    | dropped _ absent gone =>
      refine ⟨absent, fun running => ?_⟩
      cases gone.symm.trans running
  | readHead =>
    cases steps
    refine ⟨⟨paired.response, paired.queries⟩, fun address nonce balance same => ?_⟩
    cases same
  | replied => cases steps <;> exact ⟨paired.1.response, paired.1.queries⟩

/-- The processor answers the one query that the adapter waits for. -/
theorem Paired.answered {address : Address} {response : Except ProcessorError Account}
    (paired : detailed.Paired actions) (alive : detailed.node.processing = true)
    (waits : detailed.point = .answer address) :
    Paired (actions ++ [.answered address response])
      { detailed with node := { detailed.node with response := some response }, point := .receive } := by
  have asked : detailed.queries = address :: detailed.node.requests.items.filterMap ProcessorMessage.query := by
    unfold queries
    rw [waits]
    rfl
  have busy : detailed.queries ≠ [] := by simp [asked]
  unfold Paired at paired ⊢
  dsimp only
  cases point : detailed.node.adapter with
  | await requested peerId =>
    rw [point] at paired
    rcases paired with ⟨_, one⟩ | ⟨_, _, _, none⟩
    · obtain ⟨rfl, rest⟩ := List.cons.inj (asked.symm.trans (one alive))
      exact .inr ⟨response, rfl, ⟨actions, [], rfl, by simp⟩, fun _ => rest⟩
    · exact absurd (none alive) busy
  | reply peerId message =>
    rw [point] at paired
    exact absurd (paired.1.queries alive) busy
  | receive | submit | query | readHead | ended =>
    rw [point] at paired
    exact absurd (paired.queries alive) busy

theorem Steps.paired (steps : detailed.Steps host chainId action next) (paired : detailed.Paired actions) :
    next.Paired (actions ++ [action]) := by
  cases steps with
  | @other action node other _ moved =>
    obtain ⟨_, alive⟩ := (Node.step_steps moved).processor other
    by_cases adapter : ∃ own, action = .adapter own
    · obtain ⟨own, rfl⟩ := adapter
      exact paired.adapter (Node.stepAdapter_adapterSteps moved) (by simp)
    · obtain ⟨same, response, requests⟩ := Node.step_apart moved (not_exists.mp adapter) other
      refine paired.kept (by simp) same response fun running => ⟨alive.symm.trans running, ?_⟩
      unfold queries
      dsimp only
      rcases requests with kept | added
      · rw [kept]
      · rw [added, List.filterMap_append]
        simp [ProcessorMessage.query]
  | @received message rest alive waits taken =>
    refine paired.kept (by simp) rfl rfl fun _ => ⟨alive, ?_⟩
    unfold queries
    dsimp only
    rw [waits, taken]
    cases message <;> rfl
  | closed alive waits =>
    refine paired.kept (by simp) rfl rfl fun _ => ⟨alive, ?_⟩
    unfold queries
    dsimp only
    rw [waits]
    rfl
  | answered alive waits => exact paired.answered alive waits
  | @advanced point processor alive busy advanced =>
    refine paired.kept (by simp) rfl rfl fun _ => ⟨alive, ?_⟩
    obtain ⟨_, noAnswer⟩ := ProcessorPoint.advance_last advanced
    have before : detailed.point.query = [] := by
      generalize detailed.point = here at busy
      cases here with
      | answer => cases busy
      | receive | handle | tryDrain | drain | process | turn | ended => rfl
    have after : point.query = [] := by
      cases point with
      | answer address => exact absurd rfl (noAnswer address)
      | receive | handle | tryDrain | drain | process | turn | ended => rfl
    unfold queries
    rw [before]
    exact congrArg (· ++ _) after
  | panicked => exact paired.kept (by simp) rfl rfl fun running => by cases running

theorem runs_paired {processor : BlockProcessor}
    (ran : runs (step host chainId) (start processor) actions = some detailed) : detailed.Paired actions :=
  runs_history (P := fun actions here => here.Paired actions) ⟨rfl, fun _ => rfl⟩
    (fun _ _ _ _ _ paired stepped => (step_steps stepped).paired paired) ran

end Paired

section Heads
variable {host : Host} {chainId : U64} {genesis : Genesis} {detailed next : DetailedNode} {action : DetailedAction}

/-- A head in the hand of the adapter is not below a bound, and not above the shared head. -/
structure Between (bound : Nat) (detailed : DetailedNode) : Prop where
  height : bound ≤ detailed.height
  head : ∀ peerId number hash totalDifficulty,
    detailed.node.adapter = .reply peerId (.chainHead number hash totalDifficulty) →
    bound ≤ number.toNat ∧ number.toNat ≤ detailed.height

/-- The adapter gets a head by reading the shared one. -/
theorem Steps.head (steps : detailed.Steps host chainId action next) {peerId : PeerId} {number : U64} {hash : B256}
    {totalDifficulty : U128} (waits : next.node.adapter = .reply peerId (.chainHead number hash totalDifficulty)) :
    detailed.node.adapter = .reply peerId (.chainHead number hash totalDifficulty) ∨
      number.toNat = detailed.height := by
  cases steps with
  | @other action node other reads moved =>
    by_cases adapter : ∃ own, action = .adapter own
    · obtain ⟨own, rfl⟩ := adapter
      have moved := (Node.stepAdapter_adapterSteps moved).moved
      have waits : node.adapter = .reply peerId (.chainHead number hash totalDifficulty) := waits
      rw [waits] at moved
      have steps := AdapterPoint.step_steps moved
      generalize detailed.node.adapter = here at steps
      cases steps with
      | @readHead _ head =>
        rw [reads head rfl]
        exact .inr rfl
    · obtain ⟨same, _⟩ := Node.step_apart moved (not_exists.mp adapter) other
      exact .inl (same.symm.trans waits)
  | received | closed | answered | advanced | panicked => exact .inl waits

theorem runs_between {bound : Nat} {actions : List DetailedAction}
    (ran : runs (step host chainId) detailed actions = some next) (tracked : detailed.Tracked host genesis)
    (between : detailed.Between bound) : next.Between bound := by
  refine (runs_invariant (P := fun here => here.Tracked host genesis ∧ here.Between bound) ?_ ran
    ⟨tracked, between⟩).2
  rintro here action next ⟨tracked, between⟩ stepped
  have steps := step_steps stepped
  obtain ⟨kept, grown⟩ := steps.tracked tracked
  refine ⟨kept, between.height.trans grown, fun peerId number hash totalDifficulty waits => ?_⟩
  rcases steps.head waits with before | read
  · obtain ⟨above, below⟩ := between.head peerId number hash totalDifficulty before
    exact ⟨above, below.trans grown⟩
  · rw [read]
    exact ⟨between.height, grown⟩

/-- The adapter hands a message for a peer to the manager. -/
def emits (peerId : PeerId) (message : Message) (isOk : Bool) : DetailedAction :=
  .node (.adapter (.replied (.sendMessage peerId message) isOk))

theorem step_emits {peerId : PeerId} {message : Message} {isOk : Bool}
    (stepped : detailed.step host chainId (emits peerId message isOk) = some next) :
    detailed.node.adapter = .reply peerId message ∧ next.node.adapter = .receive := by
  cases step_steps stepped with
  | @other _ node _ _ moved =>
    obtain ⟨peerId', message', waits, same, left⟩ :=
      AdapterPoint.step_replied (Node.stepAdapter_adapterSteps moved).moved
    cases same
    exact ⟨waits, left⟩

/-- An answer is read from a provider that has executed every block up to the shared head. -/
theorem step_answered {address : Address} {account : Account} (tracked : detailed.Tracked host genesis)
    (stepped : detailed.step host chainId (.answered address (.ok account)) = some next) :
    detailed.node.processor.pipeline.provider.getAccount address = .ok account ∧
      Settled host genesis detailed.executed detailed.node.processor := by
  cases step_steps stepped with
  | answered alive waits response =>
    refine ⟨?_, tracked.inPlace alive waits⟩
    unfold respond at response
    split at response
    · rename_i found
      cases response
      exact found
    · cases response
    · cases response

/-- A head that is emitted later is not below the shared head at an emission. -/
theorem height_le_of_emits {peerId peerId' : PeerId} {message : Message} {isOk isOk' : Bool} {number : U64}
    {hash : B256} {totalDifficulty : U128} {between after : List DetailedAction} {last : DetailedNode}
    (tracked : detailed.Tracked host genesis)
    (stepped : detailed.step host chainId (emits peerId message isOk) = some next)
    (ran : runs (step host chainId) next
      (between ++ emits peerId' (.chainHead number hash totalDifficulty) isOk' :: after) = some last) :
    detailed.height ≤ number.toNat := by
  obtain ⟨kept, grown⟩ := (step_steps stepped).tracked tracked
  obtain ⟨there, _, ran, emitted, _⟩ := runs_split ran
  have idle : next.Between detailed.height := by
    refine ⟨grown, fun _ _ _ _ waits => ?_⟩
    cases (step_emits stepped).2.symm.trans waits
  exact ((runs_between ran kept idle).head _ _ _ _ (step_emits emitted).1).1

end Heads

end DetailedNode

open DetailedNode

/-- Every account response of the adapter was read by the processor at a point where its provider had executed
exactly the blocks 1 to `h`, and every head that the adapter emits after it has a number of at least `h`. The
numbers of the heads that it emits never go down. -/
theorem account_state_never_ahead {host : Host} {chainId : U64} {genesis : Genesis} {actions : List DetailedAction}
    {detailed : DetailedNode}
    (ran : runs (DetailedNode.step host chainId) (DetailedNode.start (genesis.processor host)) actions =
      some detailed) :
    (∀ before between after peerId peerId' address nonce balance number hash totalDifficulty isOk isOk',
      actions = before ++ emits peerId (.accountState address nonce balance) isOk ::
        (between ++ emits peerId' (.chainHead number hash totalDifficulty) isOk' :: after) →
      ∃ first second account here, before = first ++ .answered address (.ok account) :: second ∧
        (∀ other response, DetailedAction.answered other response ∉ second) ∧
        account.nonce = nonce ∧ account.balance = balance ∧
        runs (DetailedNode.step host chainId) (DetailedNode.start (genesis.processor host)) first = some here ∧
        here.node.processor.pipeline.provider.getAccount address = .ok account ∧
        Committed (genesis.rules host) (genesis.ledger host) here.executed here.node.processor.ledger ∧
        (here.executed.map fun block => block.header.number.toNat) = List.range' 1 here.executed.length ∧
        here.executed.length ≤ number.toNat) ∧
    (∀ before between after peerId peerId' number number' hash hash' totalDifficulty totalDifficulty' isOk isOk',
      actions = before ++ emits peerId (.chainHead number hash totalDifficulty) isOk ::
        (between ++ emits peerId' (.chainHead number' hash' totalDifficulty') isOk' :: after) →
      number.toNat ≤ number'.toNat) := by
  have tracked := start_tracked host genesis
  constructor
  · rintro before between after peerId peerId' address nonce balance number hash totalDifficulty isOk isOk' rfl
    obtain ⟨here, next, first, emitted, rest⟩ := runs_split ran
    have paired := runs_paired first
    unfold Paired at paired
    rw [(step_emits emitted).1] at paired
    obtain ⟨account, ⟨earlier, later, rfl, latest⟩, sameNonce, sameBalance⟩ := paired.2 address nonce balance rfl
    obtain ⟨reading, read, start, answered, later⟩ := runs_split first
    obtain ⟨found, settled⟩ := step_answered (runs_tracked start tracked).1 answered
    obtain ⟨trackedRead, grown⟩ := (step_steps answered).tracked (runs_tracked start tracked).1
    obtain ⟨trackedHere, grown'⟩ := runs_tracked later trackedRead
    refine ⟨earlier, _, account, reading, rfl, latest, sameNonce, sameBalance, start, found, settled.committed,
      settled.numbers, ?_⟩
    calc
      reading.executed.length = reading.height := settled.count.symm
      _ ≤ here.height := grown.trans grown'
      _ ≤ number.toNat := height_le_of_emits trackedHere emitted rest
  · rintro before between after peerId peerId' number number' hash hash' totalDifficulty totalDifficulty' isOk isOk' rfl
    obtain ⟨here, next, first, emitted, rest⟩ := runs_split ran
    have start : (DetailedNode.start (genesis.processor host)).Between 0 :=
      ⟨Nat.zero_le _, fun _ _ _ _ waits => by cases waits⟩
    obtain ⟨trackedHere, _⟩ := runs_tracked first tracked
    have below := ((runs_between first tracked start).head _ _ _ _ (step_emits emitted).1).2
    exact below.trans (height_le_of_emits trackedHere emitted rest)

section Sample

def sampleAccount : Account := { Account.default with nonce := 1, balance := 733 }

/-- The head that the first block leaves. -/
def sampleTop : ChainHead := ⟨1, headerHash sampleHost sampleFirst.block.header, 21⟩

/-- A peer sends the first block, and the adapter passes it on. -/
def sampleDelivery : List NodeAction :=
  sampleJoin ++ sampleAsk (.newBlock sampleFirst.block 0) (.newBlock sampleFirst.block samplePeer) ++ [
    .adapter (.received (some (.newBlock sampleFirst.block samplePeer))),
    .adapter (.submitted (.newBlock sampleFirst.block samplePeer) true)]

/-- A head query once the block is executed and before the shared head has it, up to the emission. -/
def sampleEarly : List DetailedAction :=
  sampleDelivery.map .node ++ .received (.newBlock sampleFirst.block samplePeer) :: List.replicate 5 .advanced ++
    (askHead ++ readHeadFor sampleHead).map .node

/-- The block is done, and an account query is answered, up to the emission. -/
def sampleRest : List DetailedAction :=
  (sampleRelay (headReply sampleHead) ++ askAccount ++ queryAccount).map .node ++ List.replicate 6 .advanced ++ [
    .received (.getAccountState sampleSender),
    .answered sampleSender (.ok sampleAccount),
    .node (.adapter (.answered (some (.ok sampleAccount))))]

def sampleLate : List DetailedAction :=
  (sampleRelay (.accountState sampleSender 1 733) ++ askHead ++ readHeadFor sampleTop).map .node

/-- The head 0, the account after block 1, and the head 1. -/
def sampleExchange : List DetailedAction :=
  sampleEarly ++ emits samplePeer (headReply sampleHead) true :: (sampleRest ++
    emits samplePeer (.accountState sampleSender 1 733) true :: (sampleLate ++
      [emits samplePeer (headReply sampleTop) true]))

theorem account_state_never_ahead_exchange : ∃ detailed,
    runs (DetailedNode.step sampleHost 1) (DetailedNode.start (sampleGenesis.processor sampleHost)) sampleExchange =
      some detailed ∧
    (∃ (here : DetailedNode) (account : Account),
      here.node.processor.pipeline.provider.getAccount sampleSender = .ok account ∧ account.nonce = 1 ∧
        account.balance = 733 ∧ here.executed.length ≤ sampleTop.number.toNat) ∧
    sampleHead.number.toNat ≤ sampleTop.number.toNat := by
  have possible : (runs (DetailedNode.step sampleHost 1) (DetailedNode.start (sampleGenesis.processor sampleHost))
      sampleExchange).isSome = true := by
    decide +kernel
  obtain ⟨detailed, ran⟩ := Option.isSome_iff_exists.mp possible
  obtain ⟨accounts, heads⟩ := account_state_never_ahead ran
  obtain ⟨_, _, account, here, _, _, nonce, balance, _, found, _, _, bound⟩ :=
    accounts (sampleEarly ++ emits samplePeer (headReply sampleHead) true :: sampleRest) sampleLate [] samplePeer
      samplePeer sampleSender 1 733 sampleTop.number sampleTop.hash sampleTop.totalDifficulty true true (by
        simp only [sampleExchange, List.append_assoc, List.cons_append]
        rfl)
  have order := heads sampleEarly (sampleRest ++ emits samplePeer (.accountState sampleSender 1 733) true :: sampleLate)
    [] samplePeer samplePeer sampleHead.number sampleTop.number sampleHead.hash sampleTop.hash
    sampleHead.totalDifficulty sampleTop.totalDifficulty true true (by
      simp only [sampleExchange, List.append_assoc, List.cons_append]
      rfl)
  exact ⟨detailed, ran, ⟨here, account, found, nonce, balance, bound⟩, order⟩

end Sample

end MiniEthNode
