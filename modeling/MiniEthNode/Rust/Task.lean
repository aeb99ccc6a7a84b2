import Mathlib.Algebra.BigOperators.Group.Finset.Piecewise
import Mathlib.Algebra.GroupWithZero.Nat
import Mathlib.Algebra.Order.BigOperators.Group.Finset
import Mathlib.Data.List.Induction

namespace Rust

/-- A bounded channel: what was sent and not yet received, oldest first. -/
structure Channel (α : Type) (capacity : Nat) where
  items : List α
  fits : items.length ≤ capacity
  deriving DecidableEq

namespace Channel
variable {α : Type} {capacity : Nat} {channel channel' : Channel α capacity} {item : α}

def empty : Channel α capacity := ⟨[], Nat.zero_le _⟩

/-- A send waits while the channel is full. -/
def IsFull (channel : Channel α capacity) : Prop := channel.items.length = capacity

instance : Decidable channel.IsFull := inferInstanceAs (Decidable (_ = _))

def send (channel : Channel α capacity) (item : α) : Option (Channel α capacity) :=
  if room : channel.items.length < capacity then
    some ⟨channel.items ++ [item], by rw [List.length_append]; exact room⟩
  else none

/-- A receive waits while the channel is empty. -/
def recv (channel : Channel α capacity) : Option (α × Channel α capacity) :=
  match same : channel.items with
  | [] => none
  | item :: rest => some (item, ⟨rest, by
      have fits := channel.fits
      rw [same, List.length_cons] at fits
      omega⟩)

theorem ext (same : channel.items = channel'.items) : channel = channel' := by
  cases channel
  cases channel'
  cases same
  rfl

theorem send_eq_some : channel.send item = some channel' ↔ channel'.items = channel.items ++ [item] := by
  unfold send
  constructor
  · intro sent
    split at sent
    · cases sent
      rfl
    · cases sent
  · intro same
    have fits := channel'.fits
    rw [same, List.length_append, List.length_singleton] at fits
    rw [dif_pos (Nat.lt_of_succ_le fits), Option.some.injEq]
    exact ext same.symm

theorem exists_sent (room : channel.items.length < capacity) (item : α) :
    ∃ channel' : Channel α capacity, channel'.items = channel.items ++ [item] :=
  ⟨⟨channel.items ++ [item], by rw [List.length_append]; exact room⟩, rfl⟩

theorem exists_received {rest : List α} (same : channel.items = item :: rest) :
    ∃ channel' : Channel α capacity, channel'.items = rest := by
  have fits := channel.fits
  rw [same, List.length_cons] at fits
  exact ⟨⟨rest, by omega⟩, rfl⟩

/-- Nothing is sent into a full channel. -/
theorem IsFull.not_sent (full : channel.IsFull) : channel'.items ≠ channel.items ++ [item] := by
  intro sent
  have fits := channel'.fits
  rw [sent, List.length_append, full, List.length_singleton] at fits
  omega

theorem send_eq_none : channel.send item = none ↔ channel.IsFull := by
  have fits := channel.fits
  unfold send IsFull
  split <;> simp <;> omega

theorem recv_eq_some : channel.recv = some (item, channel') ↔ channel.items = item :: channel'.items := by
  obtain ⟨items, fits⟩ := channel
  cases items with
  | nil => simp [recv]
  | cons first rest =>
    simp only [recv, Option.some.injEq, Prod.mk.injEq, List.cons.injEq]
    refine and_congr_right fun _ => ⟨fun same => ?_, fun same => ext same⟩
    rw [← same]

end Channel

section Runs
variable {σ τ α β : Type}

/-- The state after a sequence of actions, if each of them is possible in its turn. -/
def runs (step : σ → α → Option σ) : σ → List α → Option σ
  | state, [] => some state
  | state, action :: rest => (step state action).bind fun next => runs step next rest

variable {step : σ → α → Option σ} {start state : σ}

theorem runs_append {first second : List α} :
    runs step start (first ++ second) = (runs step start first).bind fun between => runs step between second := by
  induction first generalizing start with
  | nil => rfl
  | cons action rest ih =>
    simp only [List.cons_append, runs, Option.bind_assoc]
    cases step start action with
    | none => rfl
    | some next => exact ih

theorem runs_append_eq_some {first second : List α} :
    runs step start (first ++ second) = some state ↔
      ∃ between, runs step start first = some between ∧ runs step between second = some state := by
  rw [runs_append, Option.bind_eq_some_iff]

theorem runs_cons_eq_some {action : α} {rest : List α} :
    runs step start (action :: rest) = some state ↔
      ∃ next, step start action = some next ∧ runs step next rest = some state :=
  Option.bind_eq_some_iff

theorem runs_singleton {action : α} : runs step start [action] = step start action :=
  Option.bind_fun_some _

/-- The state in which an action of a run was taken. -/
theorem runs_split {before after : List α} {action : α}
    (ran : runs step start (before ++ action :: after) = some state) :
    ∃ here next, runs step start before = some here ∧ step here action = some next ∧
      runs step next after = some state := by
  obtain ⟨here, first, ran⟩ := runs_append_eq_some.mp ran
  obtain ⟨next, second, third⟩ := runs_cons_eq_some.mp ran
  exact ⟨here, next, first, second, third⟩

/-- What the actions so far tell about the state, kept from one action to the next. -/
theorem runs_history {P : List α → σ → Prop} (initial : P [] start)
    (kept : ∀ actions action here next, runs step start actions = some here → P actions here →
      step here action = some next → P (actions ++ [action]) next)
    {actions : List α} (ran : runs step start actions = some state) : P actions state := by
  induction actions using List.reverseRec generalizing state with
  | nil =>
    cases ran
    exact initial
  | append_singleton actions action ih =>
    obtain ⟨here, first, last⟩ := runs_append_eq_some.mp ran
    rw [runs_singleton] at last
    exact kept actions action here state first (ih first) last

theorem runs_invariant {P : σ → Prop} (kept : ∀ here action next, P here → step here action = some next → P next)
    {actions : List α} (ran : runs step start actions = some state) (initial : P start) : P state :=
  runs_history (P := fun _ here => P here) initial
    (fun _ action here next _ holds stepped => kept here action next holds stepped) ran

/-- A round of actions, taken again and again while there is room for one more. -/
theorem runs_rounds {P : Nat → σ → Prop} {round : List α} {bound : Nat}
    (once : ∀ count here, count < bound → P count here → ∃ next, runs step here round = some next ∧ P (count + 1) next)
    (initial : P 0 start) {count : Nat} (few : count ≤ bound) :
    ∃ next, runs step start (List.replicate count round).flatten = some next ∧ P count next := by
  induction count with
  | zero => exact ⟨start, rfl, initial⟩
  | succ count ih =>
    obtain ⟨here, ran, holds⟩ := ih (Nat.le_of_succ_le few)
    obtain ⟨next, last, done⟩ := once count here few holds
    rw [List.replicate_succ', List.flatten_append, List.flatten_singleton]
    exact ⟨next, runs_append_eq_some.mpr ⟨here, ran, last⟩, done⟩

/-- A part of the system sees a run of its own: the actions that are its own, and no others. -/
theorem runs_project {P : σ → Prop} {step' : τ → β → Option τ} {f : σ → τ} {own : α → Option β}
    (kept : ∀ here action next, P here → step here action = some next → P next)
    (other : ∀ here action next, P here → step here action = some next → own action = none → f next = f here)
    (same : ∀ here action next part, P here → step here action = some next → own action = some part →
      step' (f here) part = some (f next))
    {actions : List α} (ran : runs step start actions = some state) (initial : P start) :
    runs step' (f start) (actions.filterMap own) = some (f state) := by
  induction actions generalizing start with
  | nil =>
    cases ran
    rfl
  | cons action rest ih =>
    obtain ⟨next, first, ran⟩ := runs_cons_eq_some.mp ran
    have later := ih ran (kept start action next initial first)
    cases part : own action with
    | none => rwa [List.filterMap_cons_none part, ← other start action next initial first part]
    | some part' =>
      rw [List.filterMap_cons_some part]
      exact runs_cons_eq_some.mpr ⟨f next, same start action next part' initial first part, later⟩

/-- What passes through a part of the system in order: all that has gone in has come out or is inside. -/
theorem runs_conserved {P : σ → Prop} {input output : α → Option β} {inside : σ → List β}
    (kept : ∀ here action next, P here → step here action = some next → P next)
    (flows : ∀ here action next, P here → step here action = some next →
      inside here ++ (input action).toList = (output action).toList ++ inside next)
    {actions : List α} (ran : runs step start actions = some state) (initial : P start) :
    inside start ++ actions.filterMap input = actions.filterMap output ++ inside state := by
  induction actions generalizing start with
  | nil =>
    cases ran
    exact List.append_nil _
  | cons action rest ih =>
    obtain ⟨next, first, ran⟩ := runs_cons_eq_some.mp ran
    have here := flows start action next initial first
    have later := ih ran (kept start action next initial first)
    have split (f : α → Option β) : (action :: rest).filterMap f = (f action).toList ++ rest.filterMap f := by
      cases told : f action <;> simp [told]
    rw [split, split, ← List.append_assoc, here, List.append_assoc, later, List.append_assoc]

end Runs

section Passes
variable {σ α β : Type} {whole first second : Prop} {before after : List β}

/-- What goes into a place and what comes out of it or stays, in order. Some of it may be lost, but not if `whole`. -/
structure Passes (whole : Prop) (before after : List β) : Prop where
  sub : after.Sublist before
  same : whole → before = after

theorem Passes.of_eq (same : before = after) : Passes whole before after := ⟨same ▸ .refl _, fun _ => same⟩

/-- What comes out of one place goes into the next. -/
theorem Passes.chain {input middle output inside inside' later later' : List β}
    (here : Passes first (inside ++ input) (middle ++ inside'))
    (there : Passes second (later ++ middle) (output ++ later')) :
    Passes (first ∧ second) ((later ++ inside) ++ input) (output ++ (later' ++ inside')) := by
  constructor
  · have start := here.sub.append_left later
    have rest := there.sub.append_right inside'
    simp only [List.append_assoc] at start rest ⊢
    exact rest.trans start
  · rintro ⟨kept, kept'⟩
    rw [List.append_assoc, here.same kept, ← List.append_assoc, there.same kept', List.append_assoc]

theorem filterMap_concat (f : α → Option β) (items : List α) (item : α) :
    (items ++ [item]).filterMap f = items.filterMap f ++ (f item).toList := by
  cases told : f item <;> simp [told]

/-- What a run has put out, and what is still inside, has come in before. -/
theorem runs_lossy {step : σ → α → Option σ} {start state : σ} {input output : α → Option β} (inside : σ → List β)
    (flows : ∀ actions action here next, runs step start actions = some here → step here action = some next →
      ((output action).toList ++ inside next).Sublist (inside here ++ (input action).toList))
    {actions : List α} (ran : runs step start actions = some state) :
    (actions.filterMap output ++ inside state).Sublist (inside start ++ actions.filterMap input) := by
  refine runs_history (P := fun actions state =>
    (actions.filterMap output ++ inside state).Sublist (inside start ++ actions.filterMap input)) ?_ ?_ ran
  · exact (List.append_nil (inside start)).symm ▸ .refl _
  · intro actions action here next first below stepped
    rw [filterMap_concat, filterMap_concat, List.append_assoc, ← List.append_assoc (inside start)]
    refine ((flows actions action here next first stepped).append_left _).trans ?_
    rw [← List.append_assoc]
    exact below.append_right _

end Passes

section Budget
variable {σ α : Type} {step : σ → α → Option σ} {start state : σ}

/-- What the actions of a run cost, and what is still due after it, they have brought in. -/
theorem runs_budget {P : σ → Prop} (cost gain : α → Nat) (due : σ → Nat)
    (kept : ∀ here action next, P here → step here action = some next → P next)
    (pays : ∀ here action next, P here → step here action = some next →
      cost action + due next ≤ due here + gain action)
    {actions : List α} (ran : runs step start actions = some state) (initial : P start) :
    (actions.map cost).sum + due state ≤ due start + (actions.map gain).sum := by
  induction actions generalizing start with
  | nil =>
    cases ran
    simp
  | cons action rest ih =>
    obtain ⟨next, first, ran⟩ := runs_cons_eq_some.mp ran
    have here := pays start action next initial first
    have later := ih ran (kept start action next initial first)
    rw [List.map_cons, List.map_cons, List.sum_cons, List.sum_cons]
    omega

theorem length_filterMap_eq_sum {β : Type} (f : α → Option β) (items : List α) :
    (items.filterMap f).length = (items.map fun item => (f item).toList.length).sum := by
  induction items with
  | nil => rfl
  | cons item rest ih => cases told : f item <;> simp [told, ih, Nat.add_comm]

/-- A sum over a list, taken key by key. -/
theorem sum_map_eq_sum_keys {κ : Type} [DecidableEq κ] (key : α → κ) (keys : Finset κ) (f : α → Nat) {items : List α}
    (covered : ∀ item ∈ items, key item ∈ keys) :
    (items.map f).sum = ∑ k ∈ keys, (items.map fun item => if key item = k then f item else 0).sum := by
  induction items with
  | nil => simp
  | cons item rest ih =>
    have later := ih fun other member => covered other (List.mem_cons_of_mem _ member)
    have own : (∑ k ∈ keys, if key item = k then f item else 0) = f item := by
      rw [Finset.sum_ite_eq, if_pos (covered item List.mem_cons_self)]
    simp only [List.map_cons, List.sum_cons, Finset.sum_add_distrib]
    rw [own, later]

/-- What holds for the items of each key holds for all of them. -/
theorem sum_map_le_of_each {κ : Type} [DecidableEq κ] {cost gain : α → Nat} (key : α → κ) {items : List α}
    (each : ∀ k, (items.map fun item => if key item = k then cost item else 0).sum ≤
      (items.map fun item => if key item = k then gain item else 0).sum) :
    (items.map cost).sum ≤ (items.map gain).sum := by
  have covered (item : α) (member : item ∈ items) : key item ∈ (items.map key).toFinset :=
    List.mem_toFinset.mpr (List.mem_map_of_mem member)
  rw [sum_map_eq_sum_keys key _ cost covered, sum_map_eq_sum_keys key _ gain covered]
  exact Finset.sum_le_sum fun k _ => each k

end Budget

section Serves
variable {σ α β : Type}

/-- The answers of a server that works off its requests one after the other, up to a failure. -/
def serves (step : σ → α → Option (σ × List β)) : σ → List α → List β
  | _, [] => []
  | state, request :: rest =>
    match step state request with
    | some (next, answers) => answers ++ serves step next rest
    | none => []

variable {step : σ → α → Option (σ × List β)} {start between : σ} {first second : List α}

theorem serves_append (ran : runs (fun state request => (step state request).map Prod.fst) start first = some between) :
    serves step start (first ++ second) = serves step start first ++ serves step between second := by
  induction first generalizing start with
  | nil =>
    cases ran
    rfl
  | cons request rest ih =>
    obtain ⟨_, moved, ran⟩ := runs_cons_eq_some.mp ran
    obtain ⟨⟨next, answers⟩, stepped, rfl⟩ := Option.map_eq_some_iff.mp moved
    simp only [List.cons_append, serves, stepped, ih ran, List.append_assoc]

theorem prefix_serves (below : first <+: second) : serves step start first <+: serves step start second := by
  obtain ⟨rest, rfl⟩ := below
  induction first generalizing start with
  | nil => exact List.nil_prefix
  | cons request first ih =>
    simp only [List.cons_append, serves]
    split
    · exact (List.prefix_append_right_inj _).mpr ih
    · exact List.prefix_rfl

/-- A request without an answer. -/
theorem serves_silent {request : α} (silent : ∀ state next answers, step state request = some (next, answers) → answers = []) :
    serves step start (first ++ [request]) = serves step start first := by
  induction first generalizing start with
  | nil =>
    simp only [List.nil_append, serves]
    split
    · rename_i next answers stepped
      rw [silent _ _ _ stepped]
      rfl
    · rfl
  | cons other rest ih => simp only [List.cons_append, serves, ih]

end Serves

end Rust
