import Mathlib.Data.List.Forall2
import MiniEthNode.Rust.Outcome

namespace Stream
open Rust

variable {β ε μ : Type} {step : Exec (List β) ε (Option μ)}

/-- The decoder is called until it asks for more input. -/
inductive Drains (step : Exec (List β) ε (Option μ)) : List β → List μ → List β → Prop
  | idle {buffer left : List β} (asks : step buffer = .ok (none, left)) : Drains step buffer [] left
  | item {buffer left rest : List β} {message : μ} {messages : List μ}
      (read : step buffer = .ok (some message, left)) (others : Drains step left messages rest) :
      Drains step buffer (message :: messages) rest

/-- The pieces are appended to the buffer one by one, and the decoder is called after each. -/
inductive Feeds (step : Exec (List β) ε (Option μ)) : List β → List (List β) → List μ → List β → Prop
  | done {buffer : List β} : Feeds step buffer [] [] buffer
  | chunk {buffer chunk left rest : List β} {chunks : List (List β)} {messages others : List μ}
      (drained : Drains step (buffer ++ chunk) messages left) (later : Feeds step left chunks others rest) :
      Feeds step buffer (chunk :: chunks) (messages ++ others) rest

theorem Drains.unique {buffer rest rest' : List β} {messages messages' : List μ}
    (first : Drains step buffer messages rest) (second : Drains step buffer messages' rest') :
    messages = messages' ∧ rest = rest' := by
  induction first generalizing messages' with
  | idle asks =>
    cases second with
    | idle asks' =>
      rw [asks] at asks'
      cases asks'
      exact ⟨rfl, rfl⟩
    | item read _ => exact absurd (asks.symm.trans read) (by simp)
  | item read _ ih =>
    cases second with
    | idle asks => exact absurd (read.symm.trans asks) (by simp)
    | item read' others =>
      rw [read] at read'
      cases read'
      obtain ⟨rfl, same⟩ := ih others
      exact ⟨rfl, same⟩

theorem Feeds.unique {buffer rest rest' : List β} {chunks : List (List β)} {messages messages' : List μ}
    (first : Feeds step buffer chunks messages rest) (second : Feeds step buffer chunks messages' rest') :
    messages = messages' ∧ rest = rest' := by
  induction first generalizing messages' with
  | done => cases second; exact ⟨rfl, rfl⟩
  | chunk drained _ ih =>
    obtain _ | ⟨drained', later⟩ := second
    obtain ⟨rfl, rfl⟩ := drained.unique drained'
    obtain ⟨rfl, same⟩ := ih later
    exact ⟨rfl, same⟩

/-- The frame of a message: the decoder reads it whatever follows it, and asks for more input as
long as a part of it is missing. -/
structure Delimits (step : Exec (List β) ε (Option μ)) (message : μ) (frame : List β) : Prop where
  whole : ∀ rest, step (frame ++ rest) = .ok (some message, rest)
  cut : ∀ front, front <+: frame → front.length < frame.length → step front = .ok (none, front)

/-- What is left in the buffer is less than the frame that comes next. -/
def Waiting (buffer : List β) : List (List β) → Prop
  | [] => buffer = []
  | frame :: _ => buffer.length < frame.length

/-- From a buffer that holds the front of the frames, as many messages as are complete are read. -/
theorem drains_front (quiet : step [] = .ok (none, [])) {messages : List μ} {frames : List (List β)}
    (framed : List.Forall₂ (Delimits step) messages frames) {buffer missing : List β}
    (stream : buffer ++ missing = frames.flatten) :
    ∃ count left, count ≤ frames.length ∧ (frames.take count).flatten ++ left = buffer ∧
      Waiting left (frames.drop count) ∧ Drains step buffer (messages.take count) left := by
  induction framed generalizing buffer with
  | nil =>
    obtain ⟨rfl, rfl⟩ := List.append_eq_nil_iff.mp stream
    exact ⟨0, [], Nat.le_refl _, rfl, rfl, .idle quiet⟩
  | @cons message frame messages frames delimits others ih =>
    rw [List.flatten_cons] at stream
    rcases Nat.lt_or_ge buffer.length frame.length with short | enough
    · have front : buffer <+: frame :=
        List.prefix_of_prefix_length_le ⟨missing, stream⟩ (List.prefix_append _ _) (Nat.le_of_lt short)
      exact ⟨0, buffer, Nat.zero_le _, rfl, short, .idle (delimits.cut buffer front short)⟩
    · obtain ⟨tail, rfl⟩ : frame <+: buffer :=
        List.prefix_of_prefix_length_le (List.prefix_append _ _) ⟨missing, stream⟩ enough
      rw [List.append_assoc, List.append_cancel_left_eq] at stream
      obtain ⟨count, left, bound, cut, waiting, drained⟩ := ih stream
      refine ⟨count + 1, left, Nat.succ_le_succ bound, ?_, waiting, .item (delimits.whole tail) drained⟩
      rw [List.take_succ_cons, List.flatten_cons, List.append_assoc, cut]

/-- From the front of the stream, in whatever pieces, the messages of the complete frames are read, and what is left
is less than the next frame. -/
theorem feeds_front (quiet : step [] = .ok (none, [])) {chunks : List (List β)} {messages : List μ}
    {frames : List (List β)} (framed : List.Forall₂ (Delimits step) messages frames) {buffer missing : List β}
    (stream : buffer ++ chunks.flatten ++ missing = frames.flatten) (waiting : Waiting buffer frames) :
    ∃ count left, count ≤ frames.length ∧ (frames.take count).flatten ++ left = buffer ++ chunks.flatten ∧
      Waiting left (frames.drop count) ∧ Feeds step buffer chunks (messages.take count) left := by
  induction chunks generalizing buffer messages frames with
  | nil => exact ⟨0, buffer, Nat.zero_le _, (List.append_nil _).symm, waiting, .done⟩
  | cons chunk chunks ih =>
    rw [List.flatten_cons, ← List.append_assoc buffer] at stream
    obtain ⟨count, left, bound, cut, waiting, drained⟩ := drains_front quiet framed ((List.append_assoc ..).symm.trans stream)
    have behind : left ++ chunks.flatten ++ missing = (frames.drop count).flatten := by
      rw [← List.take_append_drop count frames, List.flatten_append, ← cut] at stream
      simpa only [List.append_assoc, List.append_cancel_left_eq, List.take_append_drop] using stream
    obtain ⟨more, rest, bound', cut', waiting', feeds⟩ := ih (List.forall₂_drop count framed) behind waiting
    refine ⟨count + more, rest, ?_, ?_, ?_, ?_⟩
    · rw [List.length_drop] at bound'
      omega
    · rw [List.take_add, List.flatten_append, List.append_assoc, cut', List.flatten_cons, ← List.append_assoc buffer,
        ← cut, List.append_assoc]
    · rwa [← List.drop_drop]
    · rw [List.take_add]
      exact .chunk drained feeds

/-- An empty frame would be read from an empty buffer. -/
theorem waiting_nil (quiet : step [] = .ok (none, [])) {messages : List μ} {frames : List (List β)}
    (framed : List.Forall₂ (Delimits step) messages frames) : Waiting [] frames := by
  cases framed with
  | nil => rfl
  | @cons message frame _ _ delimits _ =>
    refine List.length_pos_iff.mpr fun empty => ?_
    have read := delimits.whole []
    rw [empty, List.nil_append, quiet] at read
    simp at read

theorem Waiting.complete {left : List β} {frames : List (List β)} (waiting : Waiting left frames)
    (whole : left = frames.flatten) : frames = [] ∧ left = [] := by
  cases frames with
  | nil => exact ⟨rfl, whole⟩
  | cons frame frames =>
    have length := congrArg List.length whole
    simp only [List.flatten_cons, List.length_append, Waiting] at length waiting
    omega

/-- However the frames are cut into pieces, exactly their messages are read, and nothing is left. -/
theorem feeds_iff (quiet : step [] = .ok (none, [])) {chunks : List (List β)} {messages : List μ}
    {frames : List (List β)} (framed : List.Forall₂ (Delimits step) messages frames)
    (stream : chunks.flatten = frames.flatten) {received : List μ} {rest : List β} :
    Feeds step [] chunks received rest ↔ received = messages ∧ rest = [] := by
  have feeds : Feeds step [] chunks messages [] := by
    obtain ⟨count, left, _, cut, waiting, feeds⟩ :=
      feeds_front quiet framed ((List.append_nil _).trans stream) (waiting_nil quiet framed)
    have whole : left = (frames.drop count).flatten := by
      rw [List.nil_append, stream, ← List.take_append_drop count frames, List.flatten_append] at cut
      simpa using cut
    obtain ⟨all, rfl⟩ := waiting.complete whole
    rwa [List.take_of_length_le (Nat.le_trans (Nat.le_of_eq framed.length_eq) (List.drop_eq_nil_iff.mp all))] at feeds
  constructor
  · intro other
    exact other.unique feeds
  · rintro ⟨rfl, rfl⟩
    exact feeds

end Stream
