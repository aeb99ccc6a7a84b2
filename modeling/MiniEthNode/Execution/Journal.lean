import MiniEthNode.Execution.Provider

namespace MiniEthNode
open Rust

/-- A call of one of the two mutators of the state. -/
inductive Write where
  | account (address : Address) (info : Account)
  | storage (address : Address) (slot value : B256)
  deriving DecidableEq

/-- The value that the last call wrote to a slot, if there was one. -/
def lastStored (address : Address) (slot : B256) : List Write → Option B256
  | [] => none
  | .account _ _ :: rest => lastStored address slot rest
  | .storage address' slot' value :: rest =>
    (lastStored address slot rest).or (if (address, slot) = (address', slot') then some value else none)

namespace InMemoryProvider

def write (provider : InMemoryProvider) : Write → InMemoryProvider
  | .account address info => provider.setAccount address info
  | .storage address slot value => provider.setStorage address slot value

def writeAll (provider : InMemoryProvider) (writes : List Write) : InMemoryProvider :=
  writes.foldl write provider

/-- Calls of the mutators between `begin_journal` and `rollback_journal`. -/
def rolledBack (host : Host) (writes : List Write) : Exec InMemoryProvider ExecutionError Unit := do
  beginJournal
  Exec.modify fun provider => provider.writeAll writes
  Exec.modify fun provider => provider.rollbackJournal host

/-- Every query of `StateProvider` has the same result. -/
structure SameState (before after : InMemoryProvider) : Prop where
  account : ∀ address, after.getAccount address = before.getAccount address
  balance : ∀ address, after.getBalance address = before.getBalance address
  nonce : ∀ address, after.getNonce address = before.getNonce address
  storage : ∀ address slot, after.getStorage address slot = before.getStorage address slot

variable {provider : InMemoryProvider}

theorem Journaled.write {base : HashMap Address Account} (journaled : Journaled base provider) (write : Write) :
    Journaled base (provider.write write) := by
  cases write with
  | account address info => exact journaled.setAccount address info
  | storage address slot value => exact journaled.setStorage address slot value

/-- Whatever is written, the journal still tells the accounts. -/
theorem Journaled.writeAll {base : HashMap Address Account} (journaled : Journaled base provider)
    (writes : List Write) : Journaled base (provider.writeAll writes) := by
  induction writes generalizing provider with
  | nil => exact journaled
  | cons write rest ih => exact ih (journaled.write write)

/-- A slot holds the last value that was written to it. -/
theorem lookup_storage_writeAll (provider : InMemoryProvider) (writes : List Write) (address : Address)
    (slot : B256) : (provider.writeAll writes).storage.lookup (address, slot) =
      (lastStored address slot writes).or (provider.storage.lookup (address, slot)) := by
  induction writes generalizing provider with
  | nil => rfl
  | cons write rest ih =>
    rw [writeAll, List.foldl_cons, ← writeAll, ih (provider.write write)]
    cases write with
    | account address' info => rfl
    | storage address' slot' value =>
      rw [lastStored, Option.or_assoc]
      congr 1
      rw [InMemoryProvider.write, setStorage, HashMap.lookup_insert_ite]
      split <;> rfl

/-- After a rollback the accounts are as they were, and storage is as it was written. -/
theorem rolledBack_eq (host : Host) (writes : List Write) (closed : provider.journal = none) :
    ∃ after, rolledBack host writes provider = .ok ((), after) ∧ after.state = provider.state ∧
      after.journal = none ∧ ∀ address slot, after.storage.lookup (address, slot) =
        (lastStored address slot writes).or (provider.storage.lookup (address, slot)) := by
  obtain ⟨start, same⟩ : ∃ start : InMemoryProvider, start = { provider with journal := some ∅ } := ⟨_, rfl⟩
  have opened : beginJournal provider = .ok ((), start) := by
    rw [beginJournal, closed, same]
    rfl
  have journaled : Journaled provider.state (start.writeAll writes) := by
    rw [same]
    exact (journaled_begin provider).writeAll writes
  have undone := rollbackJournal_eq host journaled
  refine ⟨(start.writeAll writes).rollbackJournal host, ?_, by rw [undone], by rw [undone], fun address slot => ?_⟩
  · rw [rolledBack, Exec.bind_ok opened]
    rfl
  · rw [undone, ← show start.storage = provider.storage by rw [same]]
    exact lookup_storage_writeAll start writes address slot

theorem SameState.of_state {after : InMemoryProvider} (same : after.state = provider.state)
    (storage : ∀ address slot, after.getStorage address slot = provider.getStorage address slot) :
    SameState provider after := by
  have account (address : Address) : after.getAccount address = provider.getAccount address := by
    rw [getAccount, getAccount, same]
  refine ⟨account, fun address => ?_, fun address => ?_, storage⟩
  · rw [getBalance, getBalance, account]
  · rw [getNonce, getNonce, account]

end InMemoryProvider

/-- A rollback closes the journal and restores every query of the state exactly if each slot ends
with the value that was read from it before. -/
theorem rollback_restores_iff {provider : InMemoryProvider} (closed : provider.journal = none) (host : Host)
    (writes : List Write) :
    ∃ after, InMemoryProvider.rolledBack host writes provider = .ok ((), after) ∧ after.journal = none ∧
      (InMemoryProvider.SameState provider after ↔ ∀ address slot value,
        lastStored address slot writes = some value → provider.getStorage address slot = .ok value) := by
  obtain ⟨after, ran, accounts, journal, stored⟩ := InMemoryProvider.rolledBack_eq host writes closed
  refine ⟨after, ran, journal, ?_, ?_⟩
  · intro same address slot value written
    rw [← same.storage, InMemoryProvider.getStorage, stored, written]
    rfl
  · intro restored
    refine .of_state accounts fun address slot => ?_
    rw [InMemoryProvider.getStorage, stored]
    cases written : lastStored address slot writes with
    | none => rfl
    | some value => exact (restored address slot value written).symm

section Sample

/-- Two writes to one account, and a zero to a slot that is empty. -/
theorem rollback_restores_accounts :
    let writes := [.account (.ofNat 1) ⟨5, 0, .zero⟩, .storage (.ofNat 1) (.ofNat 2) .zero,
      .account (.ofNat 1) ⟨4, 1, .zero⟩]
    ∃ after, InMemoryProvider.rolledBack (Host.ofGraph [] []) writes InMemoryProvider.default = .ok ((), after) ∧
      InMemoryProvider.SameState InMemoryProvider.default after := by
  intro writes
  have closed : InMemoryProvider.default.journal = none := rfl
  obtain ⟨after, ran, _, restores⟩ := rollback_restores_iff closed (Host.ofGraph [] []) writes
  refine ⟨after, ran, restores.mpr fun address slot value written => ?_⟩
  by_cases here : (address, slot) = ((.ofNat 1 : Address), (.ofNat 2 : B256))
  · simp only [writes, lastStored, here, if_true, Option.none_or, Option.some.injEq] at written
    rw [← written]
    rfl
  · simp [writes, lastStored, here] at written

/-- One write to a slot is still there after the rollback. -/
theorem rollback_keeps_storage : ∃ after,
    InMemoryProvider.rolledBack (Host.ofGraph [] []) [.storage (.ofNat 1) (.ofNat 2) (.ofNat 3)]
      InMemoryProvider.default = .ok ((), after) ∧
    InMemoryProvider.default.getStorage (.ofNat 1) (.ofNat 2) = .ok .zero ∧
    after.getStorage (.ofNat 1) (.ofNat 2) = .ok (.ofNat 3) ∧
    after.getStorage (.ofNat 1) (.ofNat 2) ≠ InMemoryProvider.default.getStorage (.ofNat 1) (.ofNat 2) := by
  refine ⟨_, rfl, by decide +kernel, by decide +kernel, by decide +kernel⟩

end Sample

end MiniEthNode
