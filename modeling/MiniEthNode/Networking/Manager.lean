import MiniEthNode.Networking.Message
import MiniEthNode.Processor.Model
import MiniEthNode.Rust.Task

namespace MiniEthNode
open Rust

/-- The sending half of the channel that was made for a connection. -/
structure PeerSender where
  channel : PeerId
  deriving DecidableEq

inductive PeerEvent where
  | connected (peerId : PeerId) (sender : PeerSender)
  | disconnected (peerId : PeerId)
  | message (peerId : PeerId) (message : Message)
  | sendMessage (peerId : PeerId) (message : Message)
  deriving DecidableEq

inductive NetworkEvent where
  | newBlock (block : Block) (peerId : PeerId)
  | getAccountState (address : Address) (peerId : PeerId)
  | getChainHead (peerId : PeerId)
  deriving DecidableEq

def NetworkEvent.peerId : NetworkEvent → PeerId
  | newBlock _ peerId | getAccountState _ peerId | getChainHead peerId => peerId

/-- The loops of `manage` over its peers. -/
inductive Broadcast where
  | relay (txs : List Transaction) (origin : PeerId)
  | ping
  | shutdown
  deriving DecidableEq

def Broadcast.message : Broadcast → Message
  | relay txs _ => .transactions txs
  | ping => .ping
  | shutdown => .disconnect "node shutting down"

/-- The `continue` of the first loop. -/
def Broadcast.skips : Broadcast → PeerId → Bool
  | relay _ origin, id => id = origin
  | ping, _ | shutdown, _ => false

/-- Where the task of `manage` waits. -/
inductive ManagerPoint where
  | select
  | send (peerId : PeerId) (sender : PeerSender) (message : Message)
  | forward (event : NetworkEvent)
  /-- The start of a loop, which fixes the order of the peers. -/
  | iterate (broadcast : Broadcast)
  | broadcast (broadcast : Broadcast) (rest : List (PeerId × PeerSender)) (stalePeers : List PeerId)
  | ended
  deriving DecidableEq

structure Manager where
  point : ManagerPoint
  peerMap : HashMap PeerId PeerSender

inductive ManagerAction where
  | received (event : Option PeerEvent)
  | ticked
  | shutdown
  | iterated (order : List (PeerId × PeerSender))
  | enqueued (sender : PeerSender) (message : Message) (isOk : Bool)
  | forwarded (event : NetworkEvent) (isOk : Bool)

namespace Manager

def new : Manager := ⟨.select, ∅⟩

/-- A message to one peer, if it is registered. -/
def sendTo (manager : Manager) (peerId : PeerId) (message : Message) : Manager :=
  match manager.peerMap.lookup peerId with
  | some sender => { manager with point := .send peerId sender message }
  | none => manager

def handleMessage (manager : Manager) (peerId : PeerId) : Message → Manager
  | .ping => manager.sendTo peerId .pong
  | .transactions txs => { manager with point := .iterate (.relay txs peerId) }
  | .newBlock block _ => { manager with point := .forward (.newBlock block peerId) }
  | .getAccountState address => { manager with point := .forward (.getAccountState address peerId) }
  | .getChainHead => { manager with point := .forward (.getChainHead peerId) }
  -- these are only logged
  | .status .. | .pong | .getBlockHeaders .. | .newBlockHashes .. | .blockHeaders .. | .disconnect ..
  | .accountState .. | .chainHead .. => manager

def handleEvent (manager : Manager) : PeerEvent → Manager
  | .connected peerId sender => { manager with peerMap := manager.peerMap.insert peerId sender }
  | .disconnected peerId => { manager with peerMap := manager.peerMap.erase peerId }
  | .message peerId message => manager.handleMessage peerId message
  | .sendMessage peerId message => manager.sendTo peerId message

/-- The loop over `stale_peers`. -/
def removeStale (peerMap : HashMap PeerId PeerSender) (stalePeers : List PeerId) : HashMap PeerId PeerSender :=
  stalePeers.foldl (fun peers id => peers.erase id) peerMap

/-- A loop over the peers, before its next round. -/
def advance (peerMap : HashMap PeerId PeerSender) (broadcast : Broadcast) (rest : List (PeerId × PeerSender))
    (stalePeers : List PeerId) : Manager :=
  match rest, broadcast with
  | _ :: _, _ => ⟨.broadcast broadcast rest stalePeers, peerMap⟩
  | [], .shutdown => ⟨.ended, ∅⟩
  | [], .relay .. | [], .ping => ⟨.select, removeStale peerMap stalePeers⟩

/-- `manage`, from one `.await` to the next. -/
def step (manager : Manager) (action : ManagerAction) : Option Manager :=
  match manager.point, action with
  | .select, .received none => some { manager with point := .ended }
  | .select, .received (some event) => some (manager.handleEvent event)
  | .select, .ticked => some { manager with point := .iterate .ping }
  | .select, .shutdown => some { manager with point := .iterate .shutdown }
  | .send peerId sender message, .enqueued sender' message' isOk =>
    if sender' = sender ∧ message' = message then
      some ⟨.select, if isOk then manager.peerMap else manager.peerMap.erase peerId⟩
    else none
  | .forward event, .forwarded event' _ =>
    if event' = event then some { manager with point := .select } else none
  | .iterate broadcast, .iterated order =>
    if manager.peerMap.Enumerates order then
      some (advance manager.peerMap broadcast (order.filter fun entry => !broadcast.skips entry.1) [])
    else none
  | .broadcast broadcast ((id, sender) :: rest) stalePeers, .enqueued sender' message' isOk =>
    if sender' = sender ∧ message' = broadcast.message then
      some (advance manager.peerMap broadcast rest (if isOk then stalePeers else stalePeers ++ [id]))
    else none
  | _, _ => none

/-- The steps of the manager, one for each way out of an `.await`. -/
inductive Steps (manager : Manager) : ManagerAction → Manager → Prop
  | received {event} : manager.point = .select → Steps manager (.received (some event)) (manager.handleEvent event)
  | exhausted : manager.point = .select → Steps manager (.received none) { manager with point := .ended }
  | ticked : manager.point = .select → Steps manager .ticked { manager with point := .iterate .ping }
  | shutdown : manager.point = .select → Steps manager .shutdown { manager with point := .iterate .shutdown }
  | sent {peerId sender message isOk} : manager.point = .send peerId sender message →
      Steps manager (.enqueued sender message isOk)
        ⟨.select, if isOk then manager.peerMap else manager.peerMap.erase peerId⟩
  | forwarded {event isOk} : manager.point = .forward event →
      Steps manager (.forwarded event isOk) { manager with point := .select }
  | iterated {broadcast order} : manager.point = .iterate broadcast → manager.peerMap.Enumerates order →
      Steps manager (.iterated order)
        (advance manager.peerMap broadcast (order.filter fun entry => !broadcast.skips entry.1) [])
  | broadcast {broadcast id sender rest stalePeers isOk} :
      manager.point = .broadcast broadcast ((id, sender) :: rest) stalePeers →
      Steps manager (.enqueued sender broadcast.message isOk)
        (advance manager.peerMap broadcast rest (if isOk then stalePeers else stalePeers ++ [id]))

theorem step_eq_some {manager next : Manager} {action : ManagerAction} :
    manager.step action = some next ↔ manager.Steps action next := by
  constructor
  · intro stepped
    unfold step at stepped
    split at stepped <;> (try split at stepped) <;> cases stepped
    case h_1 waits => exact .exhausted waits
    case h_2 waits => exact .received waits
    case h_3 waits => exact .ticked waits
    case h_4 waits => exact .shutdown waits
    case h_5.isTrue.refl waits same =>
      obtain ⟨rfl, rfl⟩ := same
      exact .sent waits
    case h_6.isTrue.refl waits same =>
      subst same
      exact .forwarded waits
    case h_7.isTrue.refl waits enumerates => exact .iterated waits enumerates
    case h_8.isTrue.refl waits same =>
      obtain ⟨rfl, rfl⟩ := same
      exact .broadcast waits
  · intro steps
    cases steps <;> simp_all [step]

/-- The manager has the sender of a peer, in its map or at hand. -/
def Holds (manager : Manager) (id : PeerId) (sender : PeerSender) : Prop :=
  manager.peerMap.lookup id = some sender ∨ (∃ message, manager.point = .send id sender message) ∨
    ∃ broadcast rest stalePeers, manager.point = .broadcast broadcast rest stalePeers ∧ (id, sender) ∈ rest

theorem lookup_of_erased {peerMap : HashMap PeerId PeerSender} {peerId id : PeerId} {sender : PeerSender}
    (kept : (peerMap.erase peerId).lookup id = some sender) : peerMap.lookup id = some sender := by
  rw [HashMap.lookup_erase_ite] at kept
  split at kept
  · cases kept
  · exact kept

theorem lookup_removeStale {peerMap : HashMap PeerId PeerSender} {stalePeers : List PeerId} {id : PeerId}
    {sender : PeerSender} (found : (removeStale peerMap stalePeers).lookup id = some sender) :
    peerMap.lookup id = some sender := by
  induction stalePeers generalizing peerMap with
  | nil => exact found
  | cons stale rest ih => exact lookup_of_erased (ih found)

theorem lookup_removeStale_none {peerMap : HashMap PeerId PeerSender} {id : PeerId} (absent : peerMap.lookup id = none)
    (stalePeers : List PeerId) : (removeStale peerMap stalePeers).lookup id = none := by
  rw [Option.eq_none_iff_forall_ne_some] at absent ⊢
  exact fun sender found => absent sender (lookup_removeStale found)

theorem lookup_removeStale_of_mem {stalePeers : List PeerId} {id : PeerId} (stale : id ∈ stalePeers)
    (peerMap : HashMap PeerId PeerSender) : (removeStale peerMap stalePeers).lookup id = none := by
  induction stalePeers generalizing peerMap with
  | nil => cases stale
  | cons first rest ih =>
    rcases List.mem_cons.mp stale with rfl | later
    · refine lookup_removeStale_none ?_ rest
      rw [HashMap.lookup_erase_ite, if_pos rfl]
    · exact ih later _

theorem Holds.lookup {manager : Manager} {id : PeerId} {sender : PeerSender} (holds : manager.Holds id sender)
    (noSend : ∀ message, manager.point ≠ .send id sender message)
    (noBroadcast : ∀ broadcast rest stalePeers, manager.point ≠ .broadcast broadcast rest stalePeers) :
    manager.peerMap.lookup id = some sender := by
  rcases holds with kept | ⟨message, waits⟩ | ⟨_, _, _, waits, _⟩
  · exact kept
  · exact (noSend _ waits).elim
  · exact (noBroadcast _ _ _ waits).elim

theorem holds_advance {peerMap : HashMap PeerId PeerSender} {broadcast : Broadcast}
    {rest : List (PeerId × PeerSender)} {stalePeers : List PeerId} {id : PeerId} {sender : PeerSender}
    (holds : (advance peerMap broadcast rest stalePeers).Holds id sender) :
    peerMap.lookup id = some sender ∨ (id, sender) ∈ rest := by
  unfold advance at holds
  split at holds
  · rcases holds with kept | ⟨message, waits⟩ | ⟨_, _, _, waits, member⟩
    · exact .inl kept
    · cases waits
    · cases waits
      exact .inr member
  · cases holds.lookup (by simp) (by simp)
  · exact .inl (lookup_removeStale (holds.lookup (by simp) (by simp)))
  · exact .inl (lookup_removeStale (holds.lookup (by simp) (by simp)))

theorem holds_sendTo {manager : Manager} {peerId id : PeerId} {message : Message} {sender : PeerSender}
    (holds : (manager.sendTo peerId message).Holds id sender) : manager.Holds id sender := by
  unfold sendTo at holds
  split at holds
  · rename_i found
    rcases holds with kept | ⟨message, waits⟩ | ⟨_, _, _, waits, _⟩
    · exact .inl kept
    · cases waits
      exact .inl found
    · cases waits
  · exact holds

theorem holds_handleEvent {manager : Manager} {event : PeerEvent} {id : PeerId} {sender : PeerSender}
    (select : manager.point = .select) (holds : (manager.handleEvent event).Holds id sender) :
    manager.Holds id sender ∨ event = .connected id sender := by
  cases event with
  | connected peerId sender' =>
    have kept : (manager.peerMap.insert peerId sender').lookup id = some sender :=
      holds.lookup (by simp [handleEvent, select]) (by simp [handleEvent, select])
    rw [HashMap.lookup_insert_ite] at kept
    split at kept
    · rename_i same
      cases kept
      exact .inr (same ▸ rfl)
    · exact .inl (.inl kept)
  | disconnected peerId =>
    have kept : (manager.peerMap.erase peerId).lookup id = some sender :=
      holds.lookup (by simp [handleEvent, select]) (by simp [handleEvent, select])
    exact .inl (.inl (lookup_of_erased kept))
  | message peerId message =>
    cases message with
    | ping => exact .inl (holds_sendTo holds)
    | transactions | newBlock | getAccountState | getChainHead =>
      exact .inl (.inl (holds.lookup (by simp [handleEvent, handleMessage]) (by simp [handleEvent, handleMessage])))
    | status | pong | getBlockHeaders | newBlockHashes | blockHeaders | disconnect | accountState | chainHead =>
      exact .inl holds
  | sendMessage peerId message => exact .inl (holds_sendTo holds)

/-- A sender comes to the manager with `Connected` only. -/
theorem Steps.holds {manager next : Manager} {action : ManagerAction} {id : PeerId} {sender : PeerSender}
    (steps : manager.Steps action next) (holds : next.Holds id sender) :
    manager.Holds id sender ∨ action = .received (some (.connected id sender)) := by
  cases steps with
  | received select =>
    rcases holds_handleEvent select holds with before | rfl
    · exact .inl before
    · exact .inr rfl
  | exhausted | ticked | shutdown | forwarded => exact .inl (.inl (holds.lookup (by simp) (by simp)))
  | @sent peerId _ _ isOk =>
    have kept := holds.lookup (by simp) (by simp)
    cases isOk with
    | true => exact .inl (.inl kept)
    | false => exact .inl (.inl (lookup_of_erased kept))
  | iterated waits enumerates =>
    rcases holds_advance holds with kept | member
    · exact .inl (.inl kept)
    · exact .inl (.inl (enumerates.mem_iff.mp (List.mem_filter.mp member).1))
  | broadcast waits =>
    rcases holds_advance holds with kept | member
    · exact .inl (.inl kept)
    · exact .inl (.inr (.inr ⟨_, _, _, waits, List.mem_cons_of_mem _ member⟩))

theorem Steps.enqueued_holds {manager next : Manager} {sender : PeerSender} {message : Message} {isOk : Bool}
    (steps : manager.Steps (.enqueued sender message isOk) next) : ∃ id, manager.Holds id sender := by
  cases steps with
  | @sent id _ _ _ waits => exact ⟨id, .inr (.inl ⟨_, waits⟩)⟩
  | @broadcast _ id _ _ _ _ waits => exact ⟨id, .inr (.inr ⟨_, _, _, waits, List.mem_cons_self⟩)⟩

theorem advance_cases (peerMap : HashMap PeerId PeerSender) (broadcast : Broadcast)
    (rest : List (PeerId × PeerSender)) (stalePeers : List PeerId) :
    (advance peerMap broadcast rest stalePeers).point = .broadcast broadcast rest stalePeers ∨
      broadcast = .shutdown ∧ advance peerMap broadcast rest stalePeers = ⟨.ended, ∅⟩ ∨
      broadcast ≠ .shutdown ∧ (advance peerMap broadcast rest stalePeers).point = .select := by
  unfold advance
  split
  · exact .inl rfl
  · exact .inr (.inl ⟨rfl, rfl⟩)
  · exact .inr (.inr ⟨by simp, rfl⟩)
  · exact .inr (.inr ⟨by simp, rfl⟩)

/-- Where an event brings the manager. -/
theorem handleEvent_cases {manager : Manager} (select : manager.point = .select) (event : PeerEvent) :
    (manager.handleEvent event).point = .select ∨
      (∃ peerId sender message, (manager.handleEvent event).point = .send peerId sender message ∧
        (message = .pong ∨ event = .sendMessage peerId message)) ∨
      (∃ broadcast, (manager.handleEvent event).point = .iterate broadcast) ∨
      ∃ networkEvent, (manager.handleEvent event).point = .forward networkEvent ∧
        ∃ message, event = .message networkEvent.peerId message := by
  have sends (peerId : PeerId) (message : Message) : (manager.sendTo peerId message).point = .select ∨
      ∃ sender, (manager.sendTo peerId message).point = .send peerId sender message := by
    unfold sendTo
    split
    · exact .inr ⟨_, rfl⟩
    · exact .inl select
  cases event with
  | connected peerId sender => exact .inl select
  | disconnected peerId => exact .inl select
  | message peerId message =>
    cases message with
    | ping =>
      rcases sends peerId .pong with same | ⟨sender, waits⟩
      · exact .inl same
      · exact .inr (.inl ⟨peerId, sender, .pong, waits, .inl rfl⟩)
    | transactions txs => exact .inr (.inr (.inl ⟨_, rfl⟩))
    | newBlock block totalDifficulty => exact .inr (.inr (.inr ⟨.newBlock block peerId, rfl, _, rfl⟩))
    | getAccountState address => exact .inr (.inr (.inr ⟨.getAccountState address peerId, rfl, _, rfl⟩))
    | getChainHead => exact .inr (.inr (.inr ⟨.getChainHead peerId, rfl, _, rfl⟩))
    | status | pong | getBlockHeaders | newBlockHashes | blockHeaders | disconnect | accountState | chainHead =>
      exact .inl select
  | sendMessage peerId message =>
    rcases sends peerId message with same | ⟨sender, waits⟩
    · exact .inl same
    · exact .inr (.inl ⟨peerId, sender, message, waits, .inr rfl⟩)

/-- What is forwarded to the processor was a message of the peer. -/
theorem Steps.forward {manager next : Manager} {action : ManagerAction} {event : NetworkEvent}
    (steps : manager.Steps action next) (waits : next.point = .forward event) :
    ∃ message, action = .received (some (.message event.peerId message)) := by
  have notAdvanced {peerMap : HashMap PeerId PeerSender} {broadcast : Broadcast} {rest : List (PeerId × PeerSender)}
      {stalePeers : List PeerId} : (advance peerMap broadcast rest stalePeers).point ≠ .forward event := by
    rcases advance_cases peerMap broadcast rest stalePeers with other | ⟨_, other⟩ | ⟨_, other⟩ <;> simp [other]
  cases steps with
  | @received received select =>
    rcases handleEvent_cases select received with other | ⟨_, _, _, other, _⟩ | ⟨_, other⟩ | ⟨_, same, message, rfl⟩
    · cases other.symm.trans waits
    · cases other.symm.trans waits
    · cases other.symm.trans waits
    · cases same.symm.trans waits
      exact ⟨message, rfl⟩
  | iterated => exact (notAdvanced waits).elim
  | broadcast => exact (notAdvanced waits).elim
  | exhausted | ticked | shutdown | sent | forwarded => cases waits

end Manager

end MiniEthNode
