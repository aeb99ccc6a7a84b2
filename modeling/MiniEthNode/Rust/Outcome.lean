import Mathlib.Logic.Basic
import Mathlib.Data.List.Basic

namespace Rust

/-- What a call can end in: a value, an error handed to the caller, or a
panic. A panic unwinds the whole task, so no caller ever observes it. -/
inductive Outcome (ε α : Type) where
  | ok (value : α)
  | err (error : ε)
  | panic
  deriving DecidableEq

namespace Outcome
variable {ε ε' α β : Type}

protected def bind (x : Outcome ε α) (f : α → Outcome ε β) : Outcome ε β :=
  match x with
  | ok a => f a
  | err e => err e
  | panic => panic

instance : Monad (Outcome ε) where
  pure := ok
  bind := Outcome.bind

/-- `map_err`, and the `From` conversion that `?` applies to an error. -/
def mapErr (f : ε → ε') : Outcome ε α → Outcome ε' α
  | ok a => ok a
  | err e => err (f e)
  | panic => panic

/-- `Option::ok_or`. -/
def okOr (x : Option α) (e : ε) : Outcome ε α :=
  match x with
  | some a => ok a
  | none => err e

/-- The value of a call, if there is one. -/
def toOption : Outcome ε α → Option α
  | ok a => some a
  | _ => none

/-- The error, where there is one. -/
def toError : Outcome ε α → Option ε
  | err e => some e
  | _ => none

/-- Whether a call stops its task. -/
def isPanic : Outcome ε α → Bool
  | panic => true
  | _ => false

theorem isPanic_iff {x : Outcome ε α} : x.isPanic = true ↔ x = panic := by
  cases x <;> simp [isPanic]

@[simp] theorem toOption_ok (a : α) : (ok a : Outcome ε α).toOption = some a := rfl

@[simp] theorem toOption_err (e : ε) : (err e : Outcome ε α).toOption = none := rfl

@[simp] theorem toOption_panic : (panic : Outcome ε α).toOption = none := rfl

theorem toOption_eq_some {x : Outcome ε α} {a : α} : x.toOption = some a ↔ x = ok a := by
  cases x <;> simp

theorem toError_eq_some {x : Outcome ε α} {e : ε} : x.toError = some e ↔ x = err e := by
  cases x <;> simp [toError]

@[simp] theorem pure_eq (a : α) : (pure a : Outcome ε α) = ok a := rfl

@[simp] theorem ok_bind (a : α) (f : α → Outcome ε β) : (ok a >>= f) = f a := rfl

@[simp] theorem err_bind (e : ε) (f : α → Outcome ε β) : ((err e : Outcome ε α) >>= f) = err e := rfl

@[simp] theorem panic_bind (f : α → Outcome ε β) : ((panic : Outcome ε α) >>= f) = panic := rfl

@[simp] theorem mapErr_ok (f : ε → ε') (a : α) : mapErr f (ok a : Outcome ε α) = ok a := rfl

@[simp] theorem mapErr_err (f : ε → ε') (e : ε) : mapErr f (err e : Outcome ε α) = err (f e) := rfl

@[simp] theorem mapErr_panic (f : ε → ε') : mapErr f (panic : Outcome ε α) = panic := rfl

@[simp] theorem okOr_some (a : α) (e : ε) : okOr (some a) e = ok a := rfl

@[simp] theorem okOr_none (e : ε) : okOr (none : Option α) e = err e := rfl

theorem bind_assoc {γ : Type} (x : Outcome ε α) (f : α → Outcome ε β) (g : β → Outcome ε γ) :
    ((x >>= f) >>= g) = (x >>= fun a => f a >>= g) := by
  cases x <;> rfl

theorem bind_eq_ok {x : Outcome ε α} {f : α → Outcome ε β} {b : β} :
    (x >>= f) = ok b ↔ ∃ a, x = ok a ∧ f a = ok b := by
  cases x <;> simp

theorem bind_ne_panic {x : Outcome ε α} {f : α → Outcome ε β} (first : x ≠ panic)
    (next : ∀ a, x = ok a → f a ≠ panic) : (x >>= f) ≠ panic := by
  cases x with
  | ok a => exact next a rfl
  | err e => simp
  | panic => exact absurd rfl first

theorem bind_eq_panic {x : Outcome ε α} {f : α → Outcome ε β} :
    (x >>= f) = panic ↔ x = panic ∨ ∃ a, x = ok a ∧ f a = panic := by
  cases x <;> simp

theorem bind_eq_err {x : Outcome ε α} {f : α → Outcome ε β} {e : ε} :
    (x >>= f) = err e ↔ x = err e ∨ ∃ a, x = ok a ∧ f a = err e := by
  cases x <;> simp

theorem mapErr_eq_panic {f : ε → ε'} {x : Outcome ε α} : mapErr f x = panic ↔ x = panic := by
  cases x <;> simp

theorem mapErr_ne_panic {f : ε → ε'} {x : Outcome ε α} (first : x ≠ panic) : mapErr f x ≠ panic := by
  cases x with
  | ok a => simp
  | err e => simp
  | panic => exact absurd rfl first

theorem okOr_ne_panic {x : Option α} {e : ε} : okOr x e ≠ panic := by
  cases x <;> simp

theorem eq_err_of_ne {x : Outcome ε α} (noPanic : x ≠ panic) (noValue : ∀ a, x ≠ ok a) : ∃ e, x = err e := by
  cases x with
  | ok a => exact absurd rfl (noValue a)
  | err e => exact ⟨e, rfl⟩
  | panic => exact absurd rfl noPanic

theorem mapErr_eq_ok {f : ε → ε'} {x : Outcome ε α} {a : α} : mapErr f x = ok a ↔ x = ok a := by
  cases x <;> simp

theorem mapErr_eq_err {f : ε → ε'} {x : Outcome ε α} {e : ε'} :
    mapErr f x = err e ↔ ∃ cause, x = err cause ∧ f cause = e := by
  cases x <;> simp

theorem okOr_eq_err {x : Option α} {e e' : ε} : okOr x e = err e' ↔ x = none ∧ e = e' := by
  cases x <;> simp

theorem okOr_eq_ok {x : Option α} {e : ε} {a : α} : okOr x e = ok a ↔ x = some a := by
  cases x <;> simp

end Outcome

/-- A call with a mutable borrow of `σ`. The state survives an error, with
whatever the call had already written to it. -/
def Exec (σ ε α : Type) : Type := σ → Outcome (ε × σ) (α × σ)

namespace Exec
variable {σ τ ε ε' α β : Type}

instance : Monad (Exec σ ε) where
  pure a := fun s => .ok (a, s)
  bind x f := fun s =>
    match x s with
    | .ok (a, s') => f a s'
    | .err e => .err e
    | .panic => .panic

def get : Exec σ ε σ := fun s => .ok (s, s)

def modify (f : σ → σ) : Exec σ ε Unit := fun s => .ok ((), f s)

/-- An early `return Err(e)`. -/
def throw (e : ε) : Exec σ ε α := fun s => .err (e, s)

/-- `todo!()` and every other way to stop the task. -/
def panic : Exec σ ε α := fun _ => .panic

/-- A call that does not borrow the state. -/
def lift (x : Outcome ε α) : Exec σ ε α := fun s =>
  match x with
  | .ok a => .ok (a, s)
  | .err e => .err (e, s)
  | .panic => .panic

/-- A call that reads the state. -/
def read (f : σ → Outcome ε α) : Exec σ ε α := fun s => lift (f s) s

/-- The `From` conversion that `?` applies to the error of a borrowing call. -/
def mapErr (f : ε → ε') (x : Exec σ ε α) : Exec σ ε' α := fun s =>
  match x s with
  | .ok r => .ok r
  | .err (e, s') => .err (f e, s')
  | .panic => .panic

/-- Keep the `Result` of a borrowing call as a value instead of returning early. -/
def attempt (x : Exec σ ε α) : Exec σ ε' (Except ε α) := fun s =>
  match x s with
  | .ok (a, s') => .ok (.ok a, s')
  | .err (e, s') => .ok (.error e, s')
  | .panic => .panic

/-- Borrow one field of the state. -/
def focus (view : σ → τ) (update : τ → σ → σ) (x : Exec τ ε α) : Exec σ ε α := fun s =>
  match x (view s) with
  | .ok (a, t) => .ok (a, update t s)
  | .err (e, t) => .err (e, update t s)
  | .panic => .panic

@[simp] theorem pure_run (a : α) (s : σ) : (pure a : Exec σ ε α) s = .ok (a, s) := rfl

theorem bind_run (x : Exec σ ε α) (f : α → Exec σ ε β) (s : σ) :
    (x >>= f) s = match x s with
      | .ok (a, s') => f a s'
      | .err e => .err e
      | .panic => .panic := rfl

@[simp] theorem get_bind (f : σ → Exec σ ε β) (s : σ) : (get >>= f) s = f s s := rfl

@[simp] theorem modify_bind (g : σ → σ) (f : Unit → Exec σ ε β) (s : σ) :
    (modify g >>= f) s = f () (g s) := rfl

@[simp] theorem throw_run (e : ε) (s : σ) : (throw e : Exec σ ε α) s = .err (e, s) := rfl

@[simp] theorem throw_bind (e : ε) (f : α → Exec σ ε β) (s : σ) :
    ((throw e : Exec σ ε α) >>= f) s = .err (e, s) := rfl

@[simp] theorem lift_ok (a : α) (s : σ) : lift (ε := ε) (.ok a) s = .ok (a, s) := rfl

theorem lift_bind (x : Outcome ε α) (f : α → Exec σ ε β) (s : σ) :
    (lift x >>= f) s = match x with
      | .ok a => f a s
      | .err e => .err (e, s)
      | .panic => .panic := by
  cases x <;> rfl

theorem read_bind (f : σ → Outcome ε α) (g : α → Exec σ ε β) (s : σ) :
    (read f >>= g) s = match f s with
      | .ok a => g a s
      | .err e => .err (e, s)
      | .panic => .panic :=
  lift_bind (f s) g s

theorem bind_ok {x : Exec σ ε α} {f : α → Exec σ ε β} {s s' : σ} {a : α} (first : x s = .ok (a, s')) :
    (x >>= f) s = f a s' := by
  rw [bind_run, first]

theorem bind_err {x : Exec σ ε α} {f : α → Exec σ ε β} {s s' : σ} {e : ε} (first : x s = .err (e, s')) :
    (x >>= f) s = .err (e, s') := by
  rw [bind_run, first]

theorem bind_eq_ok {x : Exec σ ε α} {f : α → Exec σ ε β} {s : σ} {r : β × σ} :
    (x >>= f) s = .ok r ↔ ∃ a s', x s = .ok (a, s') ∧ f a s' = .ok r := by
  rw [bind_run]
  cases x s with
  | ok result => simp [Prod.ext_iff]
  | err e => simp
  | panic => simp

theorem lift_eq_ok {x : Outcome ε α} {s s' : σ} {a : α} : lift x s = .ok (a, s') ↔ x = .ok a ∧ s = s' := by
  cases x <;> simp [lift]

theorem lift_bind_eq_ok {x : Outcome ε α} {f : α → Exec σ ε β} {s : σ} {r : β × σ} :
    (lift x >>= f) s = .ok r ↔ ∃ a, x = .ok a ∧ f a s = .ok r := by
  rw [lift_bind]
  cases x <;> simp

theorem lift_bind_eq_err {x : Outcome ε α} {f : α → Exec σ ε β} {s s' : σ} {e : ε} :
    (lift x >>= f) s = .err (e, s') ↔ x = .err e ∧ s = s' ∨ ∃ a, x = .ok a ∧ f a s = .err (e, s') := by
  rw [lift_bind]
  cases x <;> simp

theorem read_eq_ok {f : σ → Outcome ε α} {s s' : σ} {a : α} : read f s = .ok (a, s') ↔ f s = .ok a ∧ s = s' :=
  lift_eq_ok

theorem bind_eq_panic {x : Exec σ ε α} {f : α → Exec σ ε β} {s : σ} :
    (x >>= f) s = .panic ↔ x s = .panic ∨ ∃ a s', x s = .ok (a, s') ∧ f a s' = .panic := by
  rw [bind_run]
  cases x s with
  | ok result => simp [Prod.ext_iff]
  | err e => simp
  | panic => simp

theorem bind_eq_err {x : Exec σ ε α} {f : α → Exec σ ε β} {s : σ} {r : ε × σ} :
    (x >>= f) s = .err r ↔ x s = .err r ∨ ∃ a s', x s = .ok (a, s') ∧ f a s' = .err r := by
  rw [bind_run]
  cases x s with
  | ok result => simp [Prod.ext_iff]
  | err e => simp
  | panic => simp

theorem lift_eq_err {x : Outcome ε α} {s : σ} {r : ε × σ} : lift x s = .err r ↔ x = .err r.1 ∧ s = r.2 := by
  obtain ⟨e, s'⟩ := r
  cases x <;> simp [lift]

theorem lift_ne_panic {x : Outcome ε α} {s : σ} (first : x ≠ .panic) : lift x s ≠ .panic := by
  cases x with
  | ok a => simp [lift]
  | err e => simp [lift]
  | panic => exact absurd rfl first

theorem bind_panic {x : Exec σ ε α} {f : α → Exec σ ε β} {s : σ} (first : x s = .panic) :
    (x >>= f) s = .panic := by
  rw [bind_run, first]

/-- The state that a call leaves, if it returns. -/
def final : Outcome (ε × σ) (α × σ) → Option σ
  | .ok (_, s) => some s
  | .err (_, s) => some s
  | .panic => none

theorem final_bind_pure (x : Exec σ ε α) (f : α → β) (s : σ) :
    final ((x >>= fun a => (pure (f a) : Exec σ ε β)) s) = final (x s) := by
  rw [bind_run]
  cases x s <;> rfl

theorem final_attempt (x : Exec σ ε α) (s : σ) : final ((attempt x : Exec σ ε' _) s) = final (x s) := by
  unfold attempt
  cases x s <;> rfl

end Exec

/-- Indexing `xs[i]`. -/
def index {ε α : Type} (xs : List α) (i : Nat) : Outcome ε α :=
  match xs[i]? with
  | some a => .ok a
  | none => .panic

/-- The slice `xs[i..]`. -/
def sliceFrom {ε α : Type} (xs : List α) (i : Nat) : Outcome ε (List α) :=
  if i ≤ xs.length then .ok (xs.drop i) else .panic

/-- The slice `xs[..i]`. -/
def sliceTo {ε α : Type} (xs : List α) (i : Nat) : Outcome ε (List α) :=
  if i ≤ xs.length then .ok (xs.take i) else .panic

/-- The slice `xs[i..j]`. -/
def slice {ε α : Type} (xs : List α) (i j : Nat) : Outcome ε (List α) :=
  if i ≤ j ∧ j ≤ xs.length then .ok ((xs.take j).drop i) else .panic

section Slices
variable {ε α : Type}

theorem index_ok {xs : List α} {i : Nat} (inside : i < xs.length) :
    (index xs i : Outcome ε α) = .ok (xs.get ⟨i, inside⟩) := by
  simp [index, inside]

theorem index_eq_ok {xs : List α} {i : Nat} {a : α} (read : (index xs i : Outcome ε α) = .ok a) : xs[i]? = some a := by
  unfold index at read
  split at read
  · rename_i here
    cases read
    exact here
  · cases read

theorem sliceFrom_ok {xs : List α} {i : Nat} (inside : i ≤ xs.length) :
    (sliceFrom xs i : Outcome ε (List α)) = .ok (xs.drop i) := by
  simp [sliceFrom, inside]

theorem sliceTo_ok {xs : List α} {i : Nat} (inside : i ≤ xs.length) :
    (sliceTo xs i : Outcome ε (List α)) = .ok (xs.take i) := by
  simp [sliceTo, inside]

theorem slice_ok {xs : List α} {i j : Nat} (ordered : i ≤ j) (inside : j ≤ xs.length) :
    (slice xs i j : Outcome ε (List α)) = .ok ((xs.take j).drop i) := by
  simp [slice, ordered, inside]

@[simp] theorem index_append_length (front : List α) (a : α) (rest : List α) :
    (index (front ++ a :: rest) front.length : Outcome ε α) = .ok a := by
  simp [index]

@[simp] theorem sliceFrom_append_length (front rest : List α) :
    (sliceFrom (front ++ rest) front.length : Outcome ε (List α)) = .ok rest := by
  simp [sliceFrom]

@[simp] theorem sliceFrom_append_length_succ (front : List α) (a : α) (rest : List α) :
    (sliceFrom (front ++ a :: rest) (front.length + 1) : Outcome ε (List α)) = .ok rest := by
  simp [sliceFrom]

@[simp] theorem sliceTo_append_length (front rest : List α) :
    (sliceTo (front ++ rest) front.length : Outcome ε (List α)) = .ok front := by
  simp [sliceTo]

/-- Where an element of a list with one more at its end is found. -/
theorem getElem?_concat {items : List α} {last item : α} {i : Nat} :
    (items ++ [last])[i]? = some item ↔ items[i]? = some item ∨ (i = items.length ∧ item = last) := by
  rw [List.getElem?_append]
  split
  · rename_i inside
    constructor
    · exact .inl
    · rintro (found | ⟨rfl, _⟩)
      · exact found
      · omega
  · rename_i outside
    rw [List.getElem?_eq_none (l := items) (by omega), List.getElem?_singleton]
    split
    · rename_i top
      have here : i = items.length := by omega
      simp [here, eq_comm]
    · rename_i above
      have apart : i ≠ items.length := by omega
      simp [apart]

end Slices

end Rust
