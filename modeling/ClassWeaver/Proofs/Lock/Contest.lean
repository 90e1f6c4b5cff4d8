import ClassWeaver.Lock.Threads
import Mathlib.Logic.Function.Basic
import Mathlib.Logic.Relation

/-!
Threads that contend for a lock.

Every call is one step, and so is every look that a waiting thread takes at the lock. The steps of
different threads come in any order, and a waiting thread may look at any time, whether it was
woken or not. A contest also records what was asked for and what was got, which the lock itself
does not.
-/

set_option autoImplicit false
set_option relaxedAutoImplicit false

namespace ClassWeaver.Lock

variable {Thread : Type} [DecidableEq Thread]

/-- The ticket of a thread that asks for the lock in a mode. -/
def Mode.ticket (mode : Mode) (thread : Thread) : Ticket Thread :=
  ⟨thread, mode = .exclusive⟩

/-- What a thread waits for. Its number is its place among all demands that were ever queued. -/
structure Demand where
  mode : Mode
  number : Nat
  deriving DecidableEq, Repr

structure Contest (Thread : Type) where
  lock : FairLock Thread
  /-- The tickets of all demands that were ever queued, the first to come in front. -/
  demands : List (Ticket Thread)
  /-- The numbers of the demands that were served, the first to be served in front. -/
  served : List Nat
  blocked : Thread → Option Demand
  /-- How often a thread has got the lock in a mode. -/
  acquired : Thread → Mode → Nat
  /-- How often a thread has given the lock back in a mode. -/
  released : Thread → Mode → Nat

/-- Counts once more for one thread and mode. -/
def tally (counts : Thread → Mode → Nat) (thread : Thread) (mode : Mode) : Thread → Mode → Nat :=
  fun other kind ↦ if other = thread ∧ kind = mode then counts other kind + 1 else counts other kind

namespace Contest

/-- Nobody has asked for the lock yet. -/
def start : Contest Thread where
  lock := .unlocked
  demands := []
  served := []
  blocked _ := none
  acquired _ _ := 0
  released _ _ := 0

/-! ### What is recorded -/

/-- Records that a thread has put a ticket into the queue. -/
def queueUp (contest : Contest Thread) (thread : Thread) (mode : Mode) : Contest Thread :=
  { contest with
    demands := contest.demands ++ [mode.ticket thread]
    blocked := Function.update contest.blocked thread (some ⟨mode, contest.demands.length⟩) }

/-- Records that a thread has got the lock. -/
def gain (contest : Contest Thread) (thread : Thread) (mode : Mode) : Contest Thread :=
  { contest with acquired := tally contest.acquired thread mode }

/-- Records that a thread has got what it waited for. -/
def getServed (contest : Contest Thread) (thread : Thread) (demand : Demand) : Contest Thread :=
  { contest.gain thread demand.mode with
    served := contest.served ++ [demand.number]
    blocked := Function.update contest.blocked thread none }

/-- Records that a thread has given the lock back. -/
def giveBack (contest : Contest Thread) (thread : Thread) (mode : Mode) : Contest Thread :=
  { contest with released := tally contest.released thread mode }

/-! ### Steps -/

/-- Asks for the lock. A thread that does not hold the lock queues up, even if it is served at
once. -/
def enter (contest : Contest Thread) (thread : Thread) (mode : Mode) : Contest Thread :=
  let (lock, outcome) := Threads.lockIn contest.lock mode thread
  let next := { contest with lock }
  match outcome with
  | .refused _ => next
  | .waiting => next.queueUp thread mode
  | .done =>
    if (contest.lock.holds thread).reenters then next.gain thread mode
    else (next.queueUp thread mode).getServed thread ⟨mode, contest.demands.length⟩

/-- Lets a waiting thread look at the lock. -/
def look (contest : Contest Thread) (thread : Thread) (demand : Demand) : Contest Thread :=
  let (lock, served) := contest.lock.look thread
  let next := { contest with lock }
  if served then next.getServed thread demand else next

/-- Gives one hold of the lock back. -/
def leave (contest : Contest Thread) (thread : Thread) (mode : Mode) : Contest Thread :=
  let (lock, outcome) := Threads.unlockIn contest.lock mode thread
  let next := { contest with lock }
  if outcome = .done then next.giveBack thread mode else next

/-- What may happen next: a thread that waits makes no further call. -/
inductive Step : Contest Thread → Contest Thread → Prop
  | enter {contest thread} (mode : Mode) (hfree : contest.blocked thread = none) :
    Step contest (contest.enter thread mode)
  | look {contest thread demand} (hblocked : contest.blocked thread = some demand) :
    Step contest (contest.look thread demand)
  | leave {contest thread} (mode : Mode) (hfree : contest.blocked thread = none) :
    Step contest (contest.leave thread mode)

def Reachable (contest : Contest Thread) : Prop :=
  Relation.ReflTransGen Step start contest

end Contest

end ClassWeaver.Lock
