import ClassWeaver.Lock.FairLock

/-!
Threads that share a fair lock.

Each thread makes its calls in order; while one of its calls waits, it makes no further one. A
thread may also take the lock through a guard, which it keeps on a stack. Dropping a guard
releases one hold of the guard's mode, if the thread still has one. After every call the woken
threads run until each of them waits again or goes on.
-/

set_option autoImplicit false
set_option relaxedAutoImplicit false

namespace ClassWeaver.Lock

inductive Mode where
  | shared
  | exclusive
  deriving DecidableEq, Repr

inductive Call where
  | lock (mode : Mode)
  | unlock (mode : Mode)
  /-- Takes the lock and keeps a guard for it. -/
  | guard (mode : Mode)
  /-- Drops the newest guard. -/
  | drop
  | isHeldExclusively
  | exclusiveHolds
  deriving DecidableEq, Repr

inductive Answer where
  | done
  | nothing
  | flag (value : Bool)
  | count (value : Nat)
  | refused (error : StateError)
  /-- The call waits. -/
  | blocked
  /-- An earlier call of the thread still waits, so that this one is not made. -/
  | busy
  deriving DecidableEq, Repr

/-- What comes of a call: its answer, the threads whose waiting calls returned because of it, and
those that wait afterwards. -/
structure Report (Thread : Type) where
  answer : Answer
  served : List Thread
  waiting : List Thread
  deriving DecidableEq, Repr

structure Threads (Thread : Type) where
  lock : FairLock Thread
  /-- The guards of all threads, the newest first. -/
  guards : List (Thread × Mode)
  /-- The guards that waiting threads get once they are served. -/
  expected : List (Thread × Mode)

namespace Threads

variable {Thread : Type} [DecidableEq Thread]

def start : Threads Thread :=
  ⟨.unlocked, [], []⟩

def lockIn (lock : FairLock Thread) (mode : Mode) (thread : Thread) : FairLock Thread × Outcome :=
  match mode with
  | .shared => lock.lockShared thread
  | .exclusive => lock.lockExclusive thread

def unlockIn (lock : FairLock Thread) (mode : Mode) (thread : Thread) :
    FairLock Thread × Outcome :=
  match mode with
  | .shared => lock.unlockShared thread
  | .exclusive => lock.unlockExclusive thread

def Outcome.answer : Outcome → Answer
  | .done => .done
  | .waiting => .blocked
  | .refused error => .refused error

/-- Makes a call, without letting other threads run. -/
def call (threads : Threads Thread) (thread : Thread) : Call → Threads Thread × Answer
  | .lock mode =>
    let (lock, outcome) := lockIn threads.lock mode thread
    ({ threads with lock }, Outcome.answer outcome)
  | .unlock mode =>
    let (lock, outcome) := unlockIn threads.lock mode thread
    ({ threads with lock }, Outcome.answer outcome)
  | .guard mode =>
    let (lock, outcome) := lockIn threads.lock mode thread
    let threads := { threads with lock }
    match outcome with
    | .done => ({ threads with guards := (thread, mode) :: threads.guards }, .done)
    | .waiting => ({ threads with expected := (thread, mode) :: threads.expected }, .blocked)
    | .refused error => (threads, .refused error)
  | .drop =>
    match threads.guards.lookup thread with
    | none => (threads, .nothing)
    | some mode =>
      let (lock, _) := unlockIn threads.lock mode thread
      ({ threads with lock, guards := threads.guards.erase (thread, mode) }, .done)
  | .isHeldExclusively => (threads, .flag (threads.lock.isHeldExclusively thread))
  | .exclusiveHolds => (threads, .count (threads.lock.exclusiveHolds thread))

/-- Hands out the guards that the served threads were waiting for. -/
def handOut (threads : Threads Thread) (served : List Thread) : Threads Thread :=
  { threads with
    guards := threads.expected.filter (served.contains ·.1) ++ threads.guards
    expected := threads.expected.filter (!served.contains ·.1) }

/-- Makes a call and lets every thread run that can. -/
def step (threads : Threads Thread) (thread : Thread) (what : Call) :
    Threads Thread × Report Thread :=
  if threads.lock.isWaiting thread then
    (threads, ⟨.busy, [], threads.lock.queue.map Ticket.thread⟩)
  else
    let (threads, answer) := threads.call thread what
    let (lock, served) := threads.lock.settle
    (handOut { threads with lock } served, ⟨answer, served, lock.queue.map Ticket.thread⟩)

end Threads

end ClassWeaver.Lock
