import ClassWeaver.Failure

/-!
How often one thread holds a reentrant readers-writer lock, in either mode.

A thread may take the lock again in a mode that it holds, and the exclusive holder may take it in
shared mode as well. A thread that holds only the shared mode cannot get the exclusive one.
-/

set_option autoImplicit false
set_option relaxedAutoImplicit false

namespace ClassWeaver.Lock

structure Holds where
  exclusive : Nat
  shared : Nat
  deriving DecidableEq, Repr

namespace Holds

def none : Holds :=
  ⟨0, 0⟩

/-- Whether the thread may take the lock in shared mode without waiting for anyone. -/
def reenters (holds : Holds) : Bool :=
  0 < holds.exclusive || 0 < holds.shared

def lockShared (holds : Holds) : Holds :=
  { holds with shared := holds.shared + 1 }

def lockExclusive (holds : Holds) : Except StateError Holds :=
  if holds.exclusive = 0 ∧ 0 < holds.shared then .error .cannotUpgrade
  else .ok { holds with exclusive := holds.exclusive + 1 }

def unlockShared (holds : Holds) : Except StateError Holds :=
  if holds.shared = 0 then .error .notHeldShared
  else .ok { holds with shared := holds.shared - 1 }

def unlockExclusive (holds : Holds) : Except StateError Holds :=
  if holds.exclusive = 0 then .error .notHeldExclusively
  else .ok { holds with exclusive := holds.exclusive - 1 }

theorem unlockShared_lockShared (holds : Holds) : holds.lockShared.unlockShared = .ok holds := by
  simp [unlockShared, lockShared]

theorem unlockExclusive_of_lockExclusive {holds locked : Holds}
    (h : holds.lockExclusive = .ok locked) : locked.unlockExclusive = .ok holds := by
  unfold lockExclusive at h
  split at h
  · simp at h
  · simp only [Except.ok.injEq] at h
    simp [← h, unlockExclusive]

end Holds

end ClassWeaver.Lock
