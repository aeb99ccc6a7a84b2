import MiniEthNode.Networking.Confirmation
import MiniEthNode.Networking.Forwarding

namespace MiniEthNode
open Rust Rlp

namespace EthCodec

/-- The message can be sent. -/
def Fits (message : Message) : Prop := frameSize message ≤ maxFrameSize

section Sizes
variable {message : Message} {tag : UInt8} {fields : List RlpItem}

theorem fits_of_length (spelled : toRlpItem message = .list (tagItem tag :: fields))
    (small : (serialize (.list fields)).length < maxFrameSize) : Fits message := by
  rw [Fits, frameSize_eq spelled]
  omega

theorem fits_of_shortFields (spelled : toRlpItem message = .list (tagItem tag :: fields))
    (short : ∀ field ∈ fields, ShortField field) (few : fields.length ≤ 100) : Fits message := by
  refine fits_of_length spelled ?_
  have length := ShortFields.length_le ⟨fields, rfl, rfl, short⟩ (few.trans (by decide))
  unfold maxFrameSize
  omega

theorem fits_status (chainId : U64) (headHash : B256) (totalDifficulty : U128) :
    Fits (.status chainId headHash totalDifficulty) := by
  refine fits_of_shortFields rfl ?_ (by simp)
  simp only [List.forall_mem_cons, List.not_mem_nil, false_implies, implies_true, and_true]
  exact ⟨shortField_u64 _, shortField_fixedBytes _ (by decide), shortField_u128 _⟩

theorem fits_getAccountState (address : Address) : Fits (.getAccountState address) := by
  refine fits_of_shortFields rfl ?_ (by simp)
  simp only [List.forall_mem_cons, List.not_mem_nil, false_implies, implies_true, and_true]
  exact shortField_fixedBytes _ (by decide)

theorem fits_getChainHead : Fits .getChainHead := fits_of_shortFields rfl (by simp) (by simp)

theorem fits_farewell : Fits (.disconnect "all blocks sent") := by
  refine fits_of_shortFields rfl ?_ (by simp)
  simp only [List.forall_mem_cons, List.not_mem_nil, false_implies, implies_true, and_true]
  exact ⟨_, rfl, by decide⟩

theorem shortField_length_le {item : RlpItem} (short : ShortField item) : (serialize item).length ≤ 41 := by
  obtain ⟨data, rfl, short⟩ := short
  exact (serialize_bytes_length_le data (by omega)).trans (by omega)

theorem transfer_length_le {transaction : Transaction} (transfer : transaction.IsTransfer) :
    (serialize (toRlpItem transaction)).length ≤ 296 := by
  cases transaction with
  | legacy nonce gasPrice gasLimit toAddress value data =>
    cases transfer
    have recipient : ShortField (toItem toAddress) := by
      cases toAddress with
      | none => exact ⟨[], rfl, by decide⟩
      | some address => exact shortField_fixedBytes address (by decide)
    have fields : ShortFields 7 (toRlpItem (Transaction.legacy nonce gasPrice gasLimit toAddress value [])) := by
      refine ⟨_, rfl, rfl, ?_⟩
      simp only [List.forall_mem_cons, List.not_mem_nil, false_implies, implies_true, and_true]
      exact ⟨shortField_u64 _, shortField_u64 _, shortField_u64 _, recipient, shortField_u128 _, ⟨[], rfl, by decide⟩,
        shortField_u128 _⟩
    exact fields.length_le (by decide)
  | eip1559 => exact transfer.elim
  | eip4844 => exact transfer.elim

theorem signed_length_le {signed : SignedTransaction} (transfer : signed.transaction.IsTransfer) :
    (serialize (toRlpItem signed)).length ≤ 428 := by
  have transaction := transfer_length_le transfer
  have v := shortField_length_le (shortField_u64 signed.v)
  have r := shortField_length_le (shortField_fixedBytes signed.r (by decide))
  have s := shortField_length_le (shortField_fixedBytes signed.s (by decide))
  have payload : (serializeAll [toRlpItem signed.transaction, toRlpItem signed.v, toRlpItem signed.r,
      toRlpItem signed.s]).length ≤ 419 := by
    simp only [serializeAll, List.length_append, List.length_nil]
    omega
  exact (serialize_list_length_le (by omega)).trans (by omega)

/-- A block of the client takes about a hundredth of a frame. -/
theorem fits_newBlock {block : Block} (few : block.transactions.length ≤ 255)
    (transfers : ∀ signed ∈ block.transactions, signed.transaction.IsTransfer) (td : U128) :
    Fits (.newBlock block td) := by
  have each : ∀ item ∈ block.transactions.map toRlpItem, (serialize item).length ≤ 428 := by
    intro item member
    obtain ⟨signed, listed, rfl⟩ := List.mem_map.mp member
    exact signed_length_le (transfers signed listed)
  have transactions := serializeAll_length_le each
  rw [List.length_map] at transactions
  have transactions : (serializeAll (block.transactions.map toRlpItem)).length ≤ 255 * 428 :=
    transactions.trans (Nat.mul_le_mul_right _ few)
  have list := serialize_list_length_le (transactions.trans_lt (by decide))
  have header := (shortFields_header block.header).length_le (by decide)
  have total := shortField_length_le (shortField_u128 td)
  have body : (serializeAll [toRlpItem block.header, .list (block.transactions.map toRlpItem)]).length ≤ 110000 := by
    simp only [serializeAll, List.length_append, List.length_nil]
    omega
  have block' : (serialize (toRlpItem block)).length ≤ 110009 :=
    (serialize_list_length_le (body.trans_lt (by decide))).trans (by omega)
  have payload : (serializeAll [toRlpItem block, toRlpItem td]).length ≤ 110050 := by
    simp only [serializeAll, List.length_append, List.length_nil]
    omega
  refine fits_of_length rfl ?_
  have whole := serialize_list_length_le (payload.trans_lt (by decide))
  unfold maxFrameSize
  omega

end Sizes

theorem exists_frames {messages : List Message} (fits : ∀ message ∈ messages, Fits message) : ∃ frames : List Bytes,
    List.Forall₂ (fun message frame => ∀ dst, encode message dst = .ok ((), dst ++ frame)) messages frames := by
  induction messages with
  | nil => exact ⟨[], .nil⟩
  | cons message rest ih =>
    obtain ⟨first, fits⟩ := List.forall_mem_cons.mp fits
    obtain ⟨frames, framed⟩ := ih fits
    obtain ⟨_, _, spelled, -⟩ := toRlpItem_message message
    exact ⟨_ :: frames, .cons (encode_small spelled first) framed⟩

end EthCodec

section Client
variable {host : Host} {signer : Signer} {options : ClientOptions} {config : GenesisConfig} {patience : Nat → Nat}

/-- All that is written can be sent. -/
def FramedStream.Fitting (framed : FramedStream) : Prop := ∀ message ∈ framed.written, EthCodec.Fits message

theorem send_keeps {item : Message} (fits : EthCodec.Fits item) :
    Exec.Keeps FramedStream.Fitting (FramedStream.send item) := by
  intro framed fitting framed' same
  have written : framed'.written = framed.written ++ [item] := by
    unfold FramedStream.send at same
    dsimp only at same
    split at same <;> cases same <;> rfl
  intro message member
  rw [written, List.mem_append, List.mem_singleton] at member
  rcases member with earlier | rfl
  · exact fitting message earlier
  · exact fits

theorem flush_keeps : Exec.Keeps FramedStream.Fitting FramedStream.flush := by
  intro framed fitting framed' same
  have written : framed'.written = framed.written := by
    unfold FramedStream.flush at same
    dsimp only at same
    split at same <;> cases same <;> rfl
  rwa [FramedStream.Fitting, written]

theorem next_keeps : Exec.Keeps FramedStream.Fitting FramedStream.next := by
  intro framed fitting framed' same
  have written : framed'.written = framed.written := by
    unfold FramedStream.next at same
    split at same <;> cases same <;> rfl
  rwa [FramedStream.Fitting, written]

theorem exchange_keeps {request : Message} (fits : EthCodec.Fits request) (label : String) :
    Exec.Keeps FramedStream.Fitting (exchange request label) := by
  refine (send_keeps fits).bind fun _ => flush_keeps.bind fun _ => next_keeps.bind fun wait => ?_
  split
  · exact .pure _
  all_goals exact .throw _

theorem queryAccountState_keeps (address : Address) : Exec.Keeps FramedStream.Fitting (queryAccountState address) := by
  refine (exchange_keeps (EthCodec.fits_getAccountState address) _).bind fun message => ?_
  split
  · split
    · exact .throw _
    · exact .pure _
  · exact .throw _

theorem queryChainHead_keeps : Exec.Keeps FramedStream.Fitting queryChainHead := by
  refine (exchange_keeps EthCodec.fits_getChainHead _).bind fun message => ?_
  split
  · exact .pure _
  · exact .throw _

theorem pollNonces_keeps (expected : List (Address × U64)) (all : Bool) :
    Exec.Keeps FramedStream.Fitting (pollNonces expected all) := by
  induction expected generalizing all with
  | nil => exact .pure _
  | cons entry rest ih => exact (queryAccountState_keeps _).bind fun _ => ih _

theorem waitForSenderNonces_keeps (expected : List (Address × U64)) (rounds : Nat) :
    Exec.Keeps FramedStream.Fitting (waitForSenderNonces expected rounds) := by
  induction rounds with
  | zero =>
    refine (pollNonces_keeps expected true).bind fun all => ?_
    split
    · exact .pure _
    · exact .throw _
  | succ rounds ih =>
    refine (pollNonces_keeps expected true).bind fun all => ?_
    split
    · exact .pure _
    · exact ih

theorem gatherTransactions_keeps (accountCount blockIndex : Nat) (indices : List Nat) (gathered : Gathered) :
    Exec.Keeps FramedStream.Fitting (gatherTransactions host config accountCount blockIndex indices gathered) := by
  induction indices generalizing gathered with
  | nil => exact .pure _
  | cons index rest ih =>
    refine (Exec.Keeps.lift _).bind fun position => (Exec.Keeps.lift _).bind fun sender => ?_
    refine (Exec.Keeps.lift _).bind fun recipient => (queryAccountState_keeps _).bind fun snapshot => ?_
    exact (Exec.Keeps.lift _).bind fun expectedNonce => ih _

theorem onFramed_keeps {α : Type} {x : Exec FramedStream ClientError α} (kept : Exec.Keeps FramedStream.Fitting x) :
    Exec.Keeps (fun client : Client => client.framed.Fitting) (Client.onFramed x) := by
  refine Exec.Keeps.mapErr _ (Exec.Keeps.zoom (fun _ => ?_) (fun _ _ _ => ?_) kept)
  · exact id
  · exact id

theorem onBuilder_keeps {α : Type} (x : Exec BlockBuilder BuilderError α) :
    Exec.Keeps (fun client : Client => client.framed.Fitting) (Client.onBuilder x) := by
  refine Exec.Keeps.mapErr _ (Exec.Keeps.focus (fun _ _ => ?_) x)
  exact id

/-- The block has as many transfers as the client was told to put into it. -/
theorem sendBlock_keeps (rounds blockIndex : Nat) :
    Exec.Keeps (fun client : Client => client.framed.Fitting)
      (sendBlock host signer options config rounds blockIndex) := by
  refine (onFramed_keeps (gatherTransactions_keeps _ _ _ _)).bind_of fun gathered _ _ asked => ?_
  refine (onBuilder_keeps _).bind_of fun block _ _ generated => ?_
  refine (Exec.Keeps.lift _).bind fun _ => ?_
  obtain ⟨_, _, _, _, _, specs⟩ := gatherTransactions_ok (Client.onFramed_ok asked).1
  have generated := (Client.onBuilder_ok generated).1
  obtain ⟨each, -⟩ := BlockBuilder.generateBlock_ok generated
  have few : block.transactions.length ≤ 255 := by
    have below := options.transactionsPerBlock.toNat_lt
    rw [List.length_range] at specs
    rw [← each.length_eq, specs]
    exact Nat.le_of_lt_succ ((Nat.zero_add _).trans_lt below)
  have fits := EthCodec.fits_newBlock few (BlockBuilder.generateBlock_transfers generated)
    (block.header.gasUsed.setWidth 128)
  refine (onFramed_keeps (send_keeps fits)).bind fun _ => (onFramed_keeps flush_keeps).bind fun _ => ?_
  exact onFramed_keeps (waitForSenderNonces_keeps _ _)

theorem sendBlocks_keeps (remaining blockIndex : Nat) :
    Exec.Keeps (fun client : Client => client.framed.Fitting)
      (sendBlocks host signer options config patience remaining blockIndex) := by
  induction remaining generalizing blockIndex with
  | zero => exact .pure _
  | succ remaining ih => exact (sendBlock_keeps _ _).bind fun _ => ih _

theorem clientSession_keeps :
    Exec.Keeps (fun client : Client => client.framed.Fitting)
      (clientSession host signer options config patience) := by
  refine (onFramed_keeps queryChainHead_keeps).bind fun head => (onBuilder_keeps _).bind fun _ => ?_
  split
  · exact .throw _
  split
  · exact .throw _
  refine (sendBlocks_keeps _ _).bind fun _ => ?_
  exact (onFramed_keeps (send_keeps EthCodec.fits_farewell)).bind fun _ => onFramed_keeps flush_keeps

/-- Whichever way a client ends, all that it has written can be sent. -/
theorem clientConverse_keeps :
    Exec.Keeps (fun client : Client => client.framed.Fitting)
      (clientConverse host signer options config patience) := by
  refine Exec.Keeps.get.bind fun client => ?_
  refine (onFramed_keeps (send_keeps (EthCodec.fits_status _ _ _))).bind fun _ => ?_
  refine (onFramed_keeps next_keeps).bind fun wait => ?_
  split
  · split
    · exact .pure _
    · exact clientSession_keeps
  · exact .pure _
  · exact .throw _
  · exact .pure _
  · exact .pure _

theorem clientConverse_fits {start client : Client} (fresh : start.framed.written = [])
    (ended : Exec.final (clientConverse host signer options config patience start) = some client) :
    client.framed.Fitting := by
  refine clientConverse_keeps start ?_ client ended
  intro message member
  rw [fresh] at member
  cases member

/-- The messages of a client become frames one by one, also if the client ends in an error. Whatever part of the bytes
has arrived, and in whatever pieces, the messages whose frames are complete are read from it in order, and what is left
is less than the next frame. -/
theorem client_bytes_in_order {start client : Client} (fresh : start.framed.written = [])
    (ended : Exec.final (clientConverse host signer options config patience start) = some client) :
    ∃ frames : List Bytes,
      List.Forall₂ (fun message frame => ∀ dst, EthCodec.encode message dst = .ok ((), dst ++ frame))
        client.framed.written frames ∧
      ∀ chunks : List Bytes, chunks.flatten <+: frames.flatten → ∃ count left,
        count ≤ frames.length ∧ (frames.take count).flatten ++ left = chunks.flatten ∧
        (∀ next, frames[count]? = some next → left.length < next.length) ∧
        (chunks.flatten = frames.flatten → count = frames.length ∧ left = []) ∧
        ∀ received rest, Stream.Feeds EthCodec.decode [] chunks received rest ↔
          received = client.framed.written.take count ∧ rest = left := by
  obtain ⟨frames, encoded⟩ := EthCodec.exists_frames (clientConverse_fits fresh ended)
  have framed : List.Forall₂ (Stream.Delimits EthCodec.decode) client.framed.written frames :=
    encoded.imp fun _ _ written => EthCodec.delimits_of_encode (written [])
  refine ⟨frames, encoded, fun chunks ⟨missing, part⟩ => ?_⟩
  obtain ⟨count, left, bound, cut, waiting, feeds⟩ :=
    Stream.feeds_front EthCodec.decode_nil framed (show [] ++ chunks.flatten ++ missing = _ from part)
      (Stream.waiting_nil EthCodec.decode_nil framed)
  refine ⟨count, left, bound, cut, fun next found => ?_, fun whole => ?_, fun received rest => ?_⟩
  · obtain ⟨inside, rfl⟩ := List.getElem?_eq_some_iff.mp found
    rw [List.drop_eq_getElem_cons inside] at waiting
    exact waiting
  · have all : left = (frames.drop count).flatten := by
      rw [List.nil_append, whole, ← List.take_append_drop count frames, List.flatten_append] at cut
      simpa using cut
    obtain ⟨none, rfl⟩ := waiting.complete all
    exact ⟨Nat.le_antisymm bound (List.drop_eq_nil_iff.mp none), rfl⟩
  · constructor
    · exact fun other => other.unique feeds
    · rintro ⟨rfl, rfl⟩
      exact feeds

/-- A client whose second write fails. Its first frame arrives in two pieces, and two bytes of the second one. -/
theorem client_bytes_in_order_broken : ∃ config builder client error frame,
    setupClient pairHost pairSigner onceClient.toGenesisOptions = .ok (config, builder) ∧
    clientConverse pairHost pairSigner onceClient config (fun _ => 0)
      ⟨⟨[], [true, false], [.next (some (.ok (.status 1 pairGenesisHash 0)))]⟩, builder⟩ = .err (error, client) ∧
    client.framed.written = [.status 1 pairGenesisHash 0, .getChainHead] ∧
    EthCodec.encode (.status 1 pairGenesisHash 0) [] = .ok ((), frame) ∧
    Stream.Feeds EthCodec.decode [] [frame.take 3, frame.drop 3 ++ [0, 0]] [.status 1 pairGenesisHash 0] [0, 0] := by
  have breaks : ((setupClient pairHost pairSigner onceClient.toGenesisOptions).toOption.map fun started =>
      let result := clientConverse pairHost pairSigner onceClient started.1 (fun _ => 0)
        ⟨⟨[], [true, false], [.next (some (.ok (.status 1 pairGenesisHash 0)))]⟩, started.2⟩
      (result.toOption.isSome, (Exec.final result).map (·.framed.written))) =
        some (false, some [.status 1 pairGenesisHash 0, .getChainHead]) := by
    decide +kernel
  have second : EthCodec.encode .getChainHead [] = .ok ((), [0, 0, 0, 2, 0x0d, 0xc0]) := by decide +kernel
  obtain ⟨⟨config, builder⟩, started, breaks⟩ := Option.map_eq_some_iff.mp breaks
  rw [Outcome.toOption_eq_some] at started
  obtain ⟨failed, wrote⟩ := Prod.mk.inj breaks
  cases conversed : clientConverse pairHost pairSigner onceClient config (fun _ => 0)
      ⟨⟨[], [true, false], [.next (some (.ok (.status 1 pairGenesisHash 0)))]⟩, builder⟩ with
  | ok result =>
    rw [conversed] at failed
    cases failed
  | panic =>
    rw [conversed] at wrote
    cases wrote
  | err result =>
    obtain ⟨error, client⟩ := result
    rw [conversed] at wrote
    have written : client.framed.written = _ := Option.some.inj wrote
    obtain ⟨frames, encoded, arrive⟩ := client_bytes_in_order rfl (congrArg Exec.final conversed)
    rw [written] at encoded arrive
    obtain ⟨frame, _, first, others, rfl⟩ := List.forall₂_cons_left_iff.mp encoded
    obtain ⟨_, _, last, none, rfl⟩ := List.forall₂_cons_left_iff.mp others
    obtain rfl := List.forall₂_nil_left_iff.mp none
    cases second.symm.trans (last [])
    refine ⟨config, builder, client, error, frame, started, conversed, written, first [], ?_⟩
    have whole : [frame.take 3, frame.drop 3 ++ [0, 0]].flatten = frame ++ [0, 0] := by
      simp only [List.flatten_cons, List.flatten_nil, List.append_nil, ← List.append_assoc, List.take_append_drop]
    obtain ⟨count, left, bound, cut, short, _, feeds⟩ := arrive [frame.take 3, frame.drop 3 ++ [0, 0]]
      ⟨[0, 2, 0x0d, 0xc0], by rw [whole]; simp⟩
    rw [whole] at cut
    have reached : count ≠ 0 := by
      rintro rfl
      have short := short frame rfl
      rw [show left = frame ++ [0, 0] from cut, List.length_append] at short
      omega
    have missed : count ≠ 2 := by
      rintro rfl
      have sizes := congrArg List.length cut
      simp at sizes
    obtain rfl : count = 1 := by
      rw [List.length_cons, List.length_singleton] at bound
      omega
    have rest : left = [0, 0] := by simpa using cut
    exact (feeds _ _).mpr ⟨rfl, rest.symm⟩

end Client

end MiniEthNode
