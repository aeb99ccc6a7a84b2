import MiniEthNode.Networking.Codec
import MiniEthNode.Networking.Manager

namespace MiniEthNode
open Rust

inductive HandshakeState where
  | awaitingStatus
  | established
  deriving DecidableEq

structure ConnectionContext where
  peerId : PeerId
  expectedChainId : U64
  peerSender : PeerSender

/-- Where the task of `handle_connection` waits. -/
inductive ConnectionPoint where
  | select (state : HandshakeState)
  /-- `framed.send` of the `Disconnect` for a wrong chain id. -/
  | refuse (chainId : U64)
  | readHead
  /-- `framed.send` of the `Status`. -/
  | reply (snapshot : ChainHead)
  /-- `event_sender.send` of `Connected`. -/
  | register
  /-- `event_sender.send` of a `Message`. -/
  | forward (message : Message)
  /-- `framed.send` of a message from `peer_rx`. -/
  | write (message : Message)
  /-- `event_sender.send` of `Disconnected`, after the loop. -/
  | leave
  | ended
  deriving DecidableEq

inductive ConnectionAction where
  | received (msg : Option (Except NetworkError Message))
  /-- `framed.next` panics. -/
  | unwound
  | took (rx : Option Message)
  | readHead (snapshot : ChainHead)
  | wrote (frame : Message) (isOk : Bool)
  | emitted (event : PeerEvent) (isOk : Bool)

namespace ConnectionPoint

def start : ConnectionPoint := .select .awaitingStatus

def refusal (context : ConnectionContext) (chainId : U64) : Message :=
  let received := chainId.toNat
  let expected := context.expectedChainId.toNat
  .disconnect s!"Invalid Chain Id. Received {received}, Expected {expected}"

def statusReply (context : ConnectionContext) (snapshot : ChainHead) : Message :=
  .status context.expectedChainId snapshot.hash snapshot.totalDifficulty

/-- The arms for a decoded message. -/
def handleMessage (context : ConnectionContext) : HandshakeState → Message → ConnectionPoint
  | .awaitingStatus, .status chainId _ _ => if chainId ≠ context.expectedChainId then .refuse chainId else .readHead
  | .awaitingStatus, _ => .leave
  | .established, .status .. => .leave
  | .established, message => .forward message

/-- The arms for `peer_rx`: a message that comes too early is dropped. -/
def handleOutbound : HandshakeState → Option Message → ConnectionPoint
  | .established, some message => .write message
  | .established, none => .leave
  | .awaitingStatus, rx => if rx.isNone then .leave else .select .awaitingStatus

/-- `handle_connection`, from one `.await` to the next. -/
def step (context : ConnectionContext) (point : ConnectionPoint) (action : ConnectionAction) :
    Option ConnectionPoint :=
  match point, action with
  | .select state, .received (some (.ok message)) => some (handleMessage context state message)
  | .select _, .received (some (.error _)) => some .leave
  | .select _, .received none => some .leave
  | .select _, .unwound => some .ended
  | .select state, .took rx => some (handleOutbound state rx)
  | .refuse chainId, .wrote frame _ => if frame = refusal context chainId then some .leave else none
  | .readHead, .readHead snapshot => some (.reply snapshot)
  | .reply snapshot, .wrote frame isOk =>
    if frame = statusReply context snapshot then some (if isOk then .register else .leave) else none
  | .register, .emitted event isOk =>
    if event = .connected context.peerId context.peerSender then
      some (if isOk then .select .established else .leave)
    else none
  | .forward message, .emitted event isOk =>
    if event = .message context.peerId message then some (if isOk then .select .established else .leave) else none
  | .write message, .wrote frame isOk =>
    if frame = message then some (if isOk then .select .established else .leave) else none
  | .leave, .emitted event _ => if event = .disconnected context.peerId then some .ended else none
  | _, _ => none

/-- The steps of a connection, one for each way out of an `.await`. -/
inductive Steps (context : ConnectionContext) : ConnectionPoint → ConnectionAction → ConnectionPoint → Prop
  | message {state message} :
      Steps context (.select state) (.received (some (.ok message))) (handleMessage context state message)
  | codecError {state error} : Steps context (.select state) (.received (some (.error error))) .leave
  | closed {state} : Steps context (.select state) (.received none) .leave
  | unwound {state} : Steps context (.select state) .unwound .ended
  | outbound {state rx} : Steps context (.select state) (.took rx) (handleOutbound state rx)
  | refused {chainId isOk} : Steps context (.refuse chainId) (.wrote (refusal context chainId) isOk) .leave
  | readHead {snapshot} : Steps context .readHead (.readHead snapshot) (.reply snapshot)
  | replied {snapshot isOk} : Steps context (.reply snapshot) (.wrote (statusReply context snapshot) isOk)
      (if isOk then .register else .leave)
  | registered {isOk} : Steps context .register (.emitted (.connected context.peerId context.peerSender) isOk)
      (if isOk then .select .established else .leave)
  | forwarded {message isOk} : Steps context (.forward message) (.emitted (.message context.peerId message) isOk)
      (if isOk then .select .established else .leave)
  | written {message isOk} : Steps context (.write message) (.wrote message isOk)
      (if isOk then .select .established else .leave)
  | left {isOk} : Steps context .leave (.emitted (.disconnected context.peerId) isOk) .ended

theorem step_eq_some {context : ConnectionContext} {point next : ConnectionPoint} {action : ConnectionAction} :
    step context point action = some next ↔ Steps context point action next := by
  constructor
  · intro stepped
    unfold step at stepped
    split at stepped <;> (try split at stepped) <;> cases stepped
    all_goals
      subst_vars
      constructor
  · intro steps
    cases steps <;> simp [step]

end ConnectionPoint

end MiniEthNode
