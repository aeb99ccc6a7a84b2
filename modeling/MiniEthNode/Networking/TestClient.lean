import MiniEthNode.BlockBuilder.Model
import MiniEthNode.Networking.Registration

namespace MiniEthNode
open Rust

/-- What one `timeout(Duration::from_secs(5), framed.next())` comes to. -/
inductive Wait where
  | next (item : Option (Except NetworkError Message))
  | elapsed

/-- The `Framed` stream of the client: the messages in its write buffer and those that have left it, whether its next
writes go through, and what its next waits come to. Writes that are not listed go through, and a wait for nothing runs
out. -/
structure FramedStream where
  written : List Message
  writes : List Bool
  waits : List Wait

inductive ErrorKind where
  | unexpectedEof
  | timedOut
  | invalidData
  deriving DecidableEq

/-- The `Box<dyn Error>` of the queries. -/
inductive ClientError where
  | network (error : NetworkError)
  | io (kind : ErrorKind) (message : String)
  deriving DecidableEq

namespace FramedStream

/-- A message is in the buffer before it goes to the socket, which may fail. -/
def send (item : Message) : Exec FramedStream ClientError Unit := fun framed =>
  let buffered := { framed with written := framed.written ++ [item], writes := framed.writes.tail }
  if framed.writes.headD true then .ok ((), buffered) else .err (.network .io, buffered)

def flush : Exec FramedStream ClientError Unit := fun framed =>
  let flushed := { framed with writes := framed.writes.tail }
  if framed.writes.headD true then .ok ((), flushed) else .err (.network .io, flushed)

def next : Exec FramedStream ClientError Wait := fun framed =>
  match framed.waits with
  | [] => .ok (.elapsed, framed)
  | wait :: rest => .ok (wait, { framed with waits := rest })

end FramedStream

/-- A request and the one message that is taken for its response. -/
def exchange (request : Message) (label : String) : Exec FramedStream ClientError Message := do
  FramedStream.send request
  FramedStream.flush
  match ← FramedStream.next with
  | .next (some (.ok message)) => pure message
  | .next (some (.error error)) => Exec.throw (.network error)
  | .next none => Exec.throw (.io .unexpectedEof s!"node disconnected before {label} response")
  | .elapsed => Exec.throw (.io .timedOut s!"timed out waiting for {label} response")

def queryAccountState (address : Address) : Exec FramedStream ClientError AccountSnapshot := do
  match ← exchange (.getAccountState address) "account-state" with
  | .accountState responseAddress nonce balance =>
    if responseAddress ≠ address then
      Exec.throw (.io .invalidData "account-state response address mismatch")
    else
      pure ⟨address, nonce, balance⟩
  | _ => Exec.throw (.io .invalidData "unexpected account-state response")

def queryChainHead : Exec FramedStream ClientError (U64 × B256 × U128) := do
  match ← exchange .getChainHead "chain-head" with
  | .chainHead number hash totalDifficulty => pure (number, hash, totalDifficulty)
  | _ => Exec.throw (.io .invalidData "unexpected chain-head response")

/-- The stream on which these messages arrive in time, one after the other. -/
def delivered (messages : List Message) : List Wait := messages.map fun message => .next (some (.ok message))

section Exchange
variable {framed : FramedStream} {request message : Message} {rest : List Wait}

/-- No write fails. -/
def FramedStream.Writable (framed : FramedStream) : Prop := ∀ isOk ∈ framed.writes, isOk = true

/-- The stream once a request is written and flushed and one wait is over. -/
def FramedStream.exchanged (framed : FramedStream) (request : Message) : FramedStream where
  written := framed.written ++ [request]
  writes := framed.writes.tail.tail
  waits := framed.waits.tail

theorem FramedStream.Writable.headD (writable : framed.Writable) : framed.writes.headD true = true := by
  unfold Writable at writable
  cases writes : framed.writes with
  | nil => rfl
  | cons isOk rest => exact writable isOk (writes ▸ List.mem_cons_self)

theorem FramedStream.Writable.tail (writable : framed.Writable) : framed.writes.tail.headD true = true := by
  unfold Writable at writable
  match writes : framed.writes with
  | [] => rfl
  | [_] => rfl
  | _ :: isOk :: rest => exact writable isOk (by simp [writes])

theorem exchange_message (writable : framed.Writable)
    (first : framed.waits = .next (some (.ok message)) :: rest) (label : String) :
    exchange request label framed = .ok (message, framed.exchanged request) := by
  have sent : FramedStream.send request framed =
      .ok ((), ⟨framed.written ++ [request], framed.writes.tail, framed.waits⟩) := if_pos writable.headD
  have flushed : FramedStream.flush ⟨framed.written ++ [request], framed.writes.tail, framed.waits⟩ =
      .ok ((), ⟨framed.written ++ [request], framed.writes.tail.tail, framed.waits⟩) := if_pos writable.tail
  rw [exchange, Exec.bind_ok sent, Exec.bind_ok flushed, FramedStream.exchanged, first]
  rfl

theorem queryAccountState_message {address : Address} (writable : framed.Writable)
    (first : framed.waits = .next (some (.ok message)) :: rest) :
    queryAccountState address framed = match message with
      | .accountState responseAddress nonce balance =>
        if responseAddress ≠ address then
          .err (.io .invalidData "account-state response address mismatch", framed.exchanged (.getAccountState address))
        else .ok (⟨address, nonce, balance⟩, framed.exchanged (.getAccountState address))
      | _ => .err (.io .invalidData "unexpected account-state response",
          framed.exchanged (.getAccountState address)) := by
  unfold queryAccountState
  rw [Exec.bind_ok (exchange_message writable first _)]
  cases message with
  | accountState responseAddress nonce balance =>
    dsimp only
    split <;> rfl
  | _ => rfl

theorem queryChainHead_message (writable : framed.Writable)
    (first : framed.waits = .next (some (.ok message)) :: rest) :
    queryChainHead framed = match message with
      | .chainHead number hash totalDifficulty =>
        .ok ((number, hash, totalDifficulty), framed.exchanged .getChainHead)
      | _ => .err (.io .invalidData "unexpected chain-head response", framed.exchanged .getChainHead) := by
  unfold queryChainHead
  rw [Exec.bind_ok (exchange_message writable first _)]
  cases message <;> rfl

end Exchange

/-- The manager broadcasts when it likes, and what it broadcasts is no answer. -/
theorem queryAccountState_broadcast {framed : FramedStream} {address : Address} {rest : List Wait}
    (writable : framed.Writable) (broadcast : Broadcast)
    (first : framed.waits = .next (some (.ok broadcast.message)) :: rest) :
    queryAccountState address framed =
      .err (.io .invalidData "unexpected account-state response", framed.exchanged (.getAccountState address)) := by
  rw [queryAccountState_message writable first]
  cases broadcast <;> rfl

theorem queryChainHead_broadcast {framed : FramedStream} {rest : List Wait} (writable : framed.Writable)
    (broadcast : Broadcast) (first : framed.waits = .next (some (.ok broadcast.message)) :: rest) :
    queryChainHead framed =
      .err (.io .invalidData "unexpected chain-head response", framed.exchanged .getChainHead) := by
  rw [queryChainHead_message writable first]
  cases broadcast <;> rfl

/-- A query returns what its reply says exactly when the reply is the first message to arrive: any message of the
manager before it, a `Ping` or the transactions of another peer, is taken for the response. -/
theorem client_query_answered {framed : FramedStream} (writable : framed.Writable) (unsolicited : List Broadcast)
    (later : List Wait) :
    (∀ address nonce balance, framed.waits =
        delivered (unsolicited.map Broadcast.message ++ [.accountState address nonce balance]) ++ later →
      ((∃ after, queryAccountState address framed = .ok (⟨address, nonce, balance⟩, after)) ↔ unsolicited = [])) ∧
    (∀ number hash totalDifficulty, framed.waits =
        delivered (unsolicited.map Broadcast.message ++ [.chainHead number hash totalDifficulty]) ++ later →
      ((∃ after, queryChainHead framed = .ok ((number, hash, totalDifficulty), after)) ↔ unsolicited = [])) := by
  constructor
  · intro address nonce balance arrive
    cases unsolicited with
    | nil =>
      rw [queryAccountState_message writable arrive]
      simp
    | cons broadcast rest =>
      rw [queryAccountState_broadcast writable broadcast arrive]
      simp
  · intro number hash totalDifficulty arrive
    cases unsolicited with
    | nil =>
      rw [queryChainHead_message writable arrive]
      simp
    | cons broadcast rest =>
      rw [queryChainHead_broadcast writable broadcast arrive]
      simp

section Sample

/-- The frames that a run of the node writes to one peer, which arrive in this order. -/
def framesTo (peerId : PeerId) (actions : List NodeAction) : List Message :=
  (actionsOf peerId actions).filterMap fun
    | .wrote frame true => some frame
    | _ => none

/-- The stream of a client that reads what the node writes to it. -/
def clientOf (peerId : PeerId) (actions : List NodeAction) : FramedStream :=
  ⟨[], [], delivered (framesTo peerId actions)⟩

theorem clientOf_writable (peerId : PeerId) (actions : List NodeAction) : (clientOf peerId actions).Writable :=
  fun _ member => absurd member List.not_mem_nil

/-- The peer sends a request, and the manager passes it on. -/
def sampleAsk (request : Message) (event : NetworkEvent) : List NodeAction := [
  .connection samplePeer (.received (some (.ok request))),
  .connection samplePeer (.emitted (.message samplePeer request) true),
  .manager (.received (some (.message samplePeer request))),
  .manager (.forwarded event true)]

/-- The manager has a message for the peer, and it is written. -/
def sampleWrite (message : Message) : List NodeAction := [
  .manager (.enqueued ⟨samplePeer⟩ message true),
  .connection samplePeer (.took (some message)),
  .connection samplePeer (.wrote message true)]

/-- The manager gets a reply of the adapter and passes it on. -/
def sampleRelay (reply : Message) : List NodeAction :=
  .manager (.received (some (.sendMessage samplePeer reply))) :: sampleWrite reply

def sampleReply (reply : Message) : List NodeAction :=
  .adapter (.replied (.sendMessage samplePeer reply) true) :: sampleRelay reply

def headReply (head : ChainHead) : Message := .chainHead head.number head.hash head.totalDifficulty

def sampleAccountReply : Message := .accountState sampleSender 0 2000

def askHead : List NodeAction := sampleAsk .getChainHead (.getChainHead samplePeer)

def readHeadFor (head : ChainHead) : List NodeAction := [
  .adapter (.received (some (.getChainHead samplePeer))),
  .adapter (.readHead head)]

def answerHead (head : ChainHead) : List NodeAction := readHeadFor head ++ sampleReply (headReply head)

def askAccount : List NodeAction :=
  sampleAsk (.getAccountState sampleSender) (.getAccountState sampleSender samplePeer)

def queryAccount : List NodeAction := [
  .adapter (.received (some (.getAccountState sampleSender samplePeer))),
  .adapter (.submitted (.getAccountState sampleSender) true)]

def answerAccount : List NodeAction :=
  queryAccount ++ .processed :: .adapter (.answered (some (.ok { Account.default with balance := 2000 }))) ::
    sampleReply sampleAccountReply

/-- The tick of the manager: a `Ping` to its one peer. -/
def pingPeer : List NodeAction := [
  .manager .ticked,
  .manager (.iterated [(samplePeer, ⟨samplePeer⟩)])] ++ sampleWrite .ping

/-- A second peer sends transactions, which the first one gets. -/
def relayPeer (transactions : List Transaction) : List NodeAction := [
  .connection ⟨2⟩ (.received (some (.ok (.transactions transactions)))),
  .connection ⟨2⟩ (.emitted (.message ⟨2⟩ (.transactions transactions)) true),
  .manager (.received (some (.message ⟨2⟩ (.transactions transactions)))),
  .manager (.iterated [(samplePeer, ⟨samplePeer⟩), (⟨2⟩, ⟨⟨2⟩⟩)])] ++ sampleWrite (.transactions transactions)

/-- Nothing comes between the requests and the replies. -/
theorem client_query_answered_quiet :
    (runs (Node.step sampleHost 1) sampleNode (sampleJoin ++ (askAccount ++ answerAccount))).isSome = true ∧
    (∃ after, queryAccountState sampleSender (clientOf samplePeer (askAccount ++ answerAccount)) =
      .ok (⟨sampleSender, 0, 2000⟩, after)) ∧
    (runs (Node.step sampleHost 1) sampleNode (sampleJoin ++ (askHead ++ answerHead sampleHead))).isSome = true ∧
    ∃ after, queryChainHead (clientOf samplePeer (askHead ++ answerHead sampleHead)) =
      .ok ((sampleHead.number, sampleHead.hash, sampleHead.totalDifficulty), after) :=
  ⟨by decide +kernel, ((client_query_answered (clientOf_writable _ _) [] []).1 sampleSender 0 2000 rfl).mpr rfl, by decide +kernel,
    ((client_query_answered (clientOf_writable _ _) [] []).2 _ _ _ rfl).mpr rfl⟩

/-- The transactions of another peer arrive before the account, and a `Ping` before the head. Both replies arrive
too, and both queries fail. -/
theorem client_query_interrupted :
    (runs (Node.step sampleHost 1) sampleNode
      (sampleJoin ++ sampleJoinOf ⟨2⟩ ++ (askAccount ++ relayPeer [] ++ answerAccount))).isSome = true ∧
    framesTo samplePeer (askAccount ++ relayPeer [] ++ answerAccount) = [.transactions [], sampleAccountReply] ∧
    (queryAccountState sampleSender (clientOf samplePeer (askAccount ++ relayPeer [] ++ answerAccount))).toError.map
      Prod.fst = some (.io .invalidData "unexpected account-state response") ∧
    (runs (Node.step sampleHost 1) sampleNode
      (sampleJoin ++ (askHead ++ pingPeer ++ answerHead sampleHead))).isSome = true ∧
    framesTo samplePeer (askHead ++ pingPeer ++ answerHead sampleHead) = [.ping, headReply sampleHead] ∧
    (queryChainHead (clientOf samplePeer (askHead ++ pingPeer ++ answerHead sampleHead))).toError.map Prod.fst =
      some (.io .invalidData "unexpected chain-head response") := by
  decide +kernel

end Sample

end MiniEthNode
