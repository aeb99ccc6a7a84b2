import MiniEthNode.Rust.Outcome

namespace Rust.Exec
variable {σ τ ε α β : Type}

/-- Two results agree in everything but their states, which are related. -/
def Agree (R : σ → τ → Prop) : Outcome (ε × σ) (α × σ) → Outcome (ε × τ) (α × τ) → Prop
  | .ok (a, s), .ok (b, t) => a = b ∧ R s t
  | .err (e, s), .err (f, t) => e = f ∧ R s t
  | .panic, .panic => True
  | _, _ => False

theorem Agree.inv {R : σ → τ → Prop} {x : Outcome (ε × σ) (α × σ)} {y : Outcome (ε × τ) (α × τ)}
    (agree : Agree R x y) :
    (∃ a s t, x = .ok (a, s) ∧ y = .ok (a, t) ∧ R s t) ∨
      (∃ e s t, x = .err (e, s) ∧ y = .err (e, t) ∧ R s t) ∨ (x = .panic ∧ y = .panic) := by
  rcases x with ⟨a, s⟩ | ⟨e, s⟩ | _ <;> rcases y with ⟨b, t⟩ | ⟨f, t⟩ | _
  case ok.ok =>
    obtain ⟨rfl, related⟩ := agree
    exact .inl ⟨a, s, t, rfl, rfl, related⟩
  case err.err =>
    obtain ⟨rfl, related⟩ := agree
    exact .inr (.inl ⟨e, s, t, rfl, rfl, related⟩)
  case panic.panic => exact .inr (.inr ⟨rfl, rfl⟩)
  all_goals exact agree.elim

/-- Calls from related states end alike and in related states. -/
def Relates (R : σ → τ → Prop) (x : Exec σ ε α) (y : Exec τ ε α) : Prop :=
  ∀ s t, R s t → Agree R (x s) (y t)

section Rules
variable {R : σ → τ → Prop}

theorem Relates.pure (a : α) : Relates R (Pure.pure a : Exec σ ε α) (Pure.pure a) :=
  fun _ _ related => ⟨rfl, related⟩

theorem Relates.panic : Relates R (panic : Exec σ ε α) panic := fun _ _ _ => trivial

theorem Relates.lift (x : Outcome ε α) : Relates R (lift x : Exec σ ε α) (lift x) := by
  intro s t related
  cases x with
  | ok a => exact ⟨rfl, related⟩
  | err e => exact ⟨rfl, related⟩
  | panic => trivial

theorem Relates.read {f : σ → Outcome ε α} {g : τ → Outcome ε α} (same : ∀ s t, R s t → f s = g t) :
    Relates R (read f) (read g) := by
  intro s t related
  rw [Exec.read, Exec.read, same s t related]
  exact Relates.lift (g t) s t related

theorem Relates.modify {f : σ → σ} {g : τ → τ} (kept : ∀ s t, R s t → R (f s) (g t)) :
    Relates R (modify f : Exec σ ε Unit) (modify g) :=
  fun s t related => ⟨rfl, kept s t related⟩

theorem Relates.bind {x : Exec σ ε α} {y : Exec τ ε α} {f : α → Exec σ ε β} {g : α → Exec τ ε β}
    (first : Relates R x y) (next : ∀ a, Relates R (f a) (g a)) : Relates R (x >>= f) (y >>= g) := by
  intro s t related
  rcases (first s t related).inv with ⟨a, s', t', left, right, after⟩ | ⟨e, s', t', left, right, after⟩ | ⟨left, right⟩
  · rw [bind_ok left, bind_ok right]
    exact next a s' t' after
  · rw [bind_err left, bind_err right]
    exact ⟨rfl, after⟩
  · rw [bind_panic left, bind_panic right]
    trivial

theorem Relates.attempt {ε' : Type} {x : Exec σ ε α} {y : Exec τ ε α} (first : Relates R x y) :
    Relates R (attempt x : Exec σ ε' _) (attempt y) := by
  intro s t related
  unfold Exec.attempt
  rcases (first s t related).inv with ⟨a, s', t', left, right, after⟩ | ⟨e, s', t', left, right, after⟩ | ⟨left, right⟩
  · rw [left, right]
    exact ⟨rfl, after⟩
  · rw [left, right]
    exact ⟨rfl, after⟩
  · rw [left, right]
    trivial

end Rules

/-- A call that returns and leaves the state as it found it. -/
def ReadOnly (x : Exec σ ε α) : Prop := ∀ s, (∃ a, x s = .ok (a, s)) ∨ ∃ e, x s = .err (e, s)

section Readers

theorem ReadOnly.pure (a : α) : ReadOnly (Pure.pure a : Exec σ ε α) := fun _ => .inl ⟨a, rfl⟩

theorem ReadOnly.read {f : σ → Outcome ε α} (returns : ∀ s, f s ≠ .panic) : ReadOnly (read f) := by
  intro s
  unfold Exec.read
  cases result : f s with
  | ok a => exact .inl ⟨a, rfl⟩
  | err e => exact .inr ⟨e, rfl⟩
  | panic => exact absurd result (returns s)

theorem ReadOnly.bind {x : Exec σ ε α} {f : α → Exec σ ε β} (first : ReadOnly x) (next : ∀ a, ReadOnly (f a)) :
    ReadOnly (x >>= f) := by
  intro s
  rcases first s with ⟨a, ran⟩ | ⟨e, ran⟩
  · rw [bind_ok ran]
    exact next a s
  · rw [bind_err ran]
    exact .inr ⟨e, rfl⟩

theorem ReadOnly.attempt {ε' : Type} {x : Exec σ ε α} (first : ReadOnly x) :
    ReadOnly (attempt x : Exec σ ε' _) := by
  intro s
  unfold Exec.attempt
  rcases first s with ⟨a, ran⟩ | ⟨e, ran⟩
  · rw [ran]
    exact .inl ⟨.ok a, rfl⟩
  · rw [ran]
    exact .inl ⟨.error e, rfl⟩

end Readers

/-- Whichever way a call returns, it keeps an invariant of the state. -/
def Keeps (P : σ → Prop) (x : Exec σ ε α) : Prop := ∀ s, P s → ∀ s', final (x s) = some s' → P s'

section Invariants
variable {P : σ → Prop}

theorem Keeps.pure (a : α) : Keeps P (Pure.pure a : Exec σ ε α) := by
  intro s holds s' same
  cases same
  exact holds

theorem Keeps.get : Keeps P (get : Exec σ ε σ) := by
  intro s holds s' same
  cases same
  exact holds

theorem Keeps.lift (x : Outcome ε α) : Keeps P (lift x : Exec σ ε α) := by
  intro s holds s' same
  cases x <;> cases same <;> exact holds

theorem Keeps.modify {f : σ → σ} (kept : ∀ s, P s → P (f s)) : Keeps P (modify f : Exec σ ε Unit) := by
  intro s holds s' same
  cases same
  exact kept s holds

theorem Keeps.throw (e : ε) : Keeps P (throw e : Exec σ ε α) := by
  intro s holds s' same
  cases same
  exact holds

/-- What follows a call may rely on what the call returns. -/
theorem Keeps.bind_of {x : Exec σ ε α} {f : α → Exec σ ε β} (first : Keeps P x)
    (next : ∀ a s s', x s = .ok (a, s') → Keeps P (f a)) : Keeps P (x >>= f) := by
  intro s holds s' same
  rw [bind_run] at same
  cases ran : x s with
  | ok result =>
    obtain ⟨a, between⟩ := result
    rw [ran] at same
    exact next a s between ran between (first s holds between (by rw [ran, final])) s' same
  | err result =>
    rw [ran] at same
    exact first s holds s' (by rw [ran]; exact same)
  | panic =>
    rw [ran] at same
    cases same

theorem Keeps.bind {x : Exec σ ε α} {f : α → Exec σ ε β} (first : Keeps P x) (next : ∀ a, Keeps P (f a)) :
    Keeps P (x >>= f) :=
  first.bind_of fun a _ _ _ => next a

theorem Keeps.mapErr {ε' : Type} {x : Exec σ ε α} (f : ε → ε') (first : Keeps P x) : Keeps P (mapErr f x) := by
  intro s holds s' same
  unfold Exec.mapErr at same
  cases ran : x s <;> rw [ran] at same <;> cases same <;> exact first s holds _ (by rw [ran]; rfl)

/-- A part of the state, whose invariant is a part of that of the whole. -/
theorem Keeps.zoom {Q : τ → Prop} {view : σ → τ} {update : τ → σ → σ} (part : ∀ s, P s → Q (view s))
    (kept : ∀ s t, P s → Q t → P (update t s)) {x : Exec τ ε α} (first : Keeps Q x) :
    Keeps P (focus view update x) := by
  intro s holds s' same
  unfold Exec.focus at same
  cases ran : x (view s) <;> rw [ran] at same <;> cases same <;>
    exact kept s _ holds (first _ (part s holds) _ (by rw [ran]; rfl))

theorem Keeps.focus {view : σ → τ} {update : τ → σ → σ} (kept : ∀ s t, P s → P (update t s)) (x : Exec τ ε α) :
    Keeps P (focus view update x) := by
  intro s holds s' same
  unfold Exec.focus at same
  cases ran : x (view s) <;> rw [ran] at same <;> cases same <;> exact kept s _ holds

theorem Keeps.attempt {ε' : Type} {x : Exec σ ε α} (first : Keeps P x) : Keeps P (attempt x : Exec σ ε' _) := by
  intro s holds s' same
  rw [final_attempt] at same
  exact first s holds s' same

end Invariants

end Rust.Exec
