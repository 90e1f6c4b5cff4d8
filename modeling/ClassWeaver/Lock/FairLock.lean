import ClassWeaver.Lock.Holds

/-!
A fair, reentrant readers-writer lock.

Threads that cannot get the lock at once queue up and are served in the order in which they came:
a reader waits for every writer in front of it, a writer for everyone in front of it. Threads that
hold the lock already do not queue. A waiting thread looks at the lock again only after it was
woken; `awake` holds the threads that were woken and have not looked since, and `settle` lets them
look until none is left.
-/

set_option autoImplicit false
set_option relaxedAutoImplicit false

namespace ClassWeaver.Lock

/-- The place of a waiting thread in the queue. -/
structure Ticket (Thread : Type) where
  thread : Thread
  exclusive : Bool
  deriving DecidableEq, Repr

structure FairLock (Thread : Type) where
  /-- The exclusive holder and the number of its exclusive holds. -/
  writer : Option (Thread × Nat)
  /-- The shared holders and the numbers of their shared holds. -/
  readers : List (Thread × Nat)
  /-- The waiting threads, the first to come in front. -/
  queue : List (Ticket Thread)
  awake : List Thread
  deriving DecidableEq, Repr

/-- What becomes of a call: it returns, it waits, or it is refused. -/
inductive Outcome where
  | done
  | waiting
  | refused (error : StateError)
  deriving DecidableEq, Repr

namespace FairLock

variable {Thread : Type} [DecidableEq Thread]

def unlocked : FairLock Thread :=
  ⟨none, [], [], []⟩

/-! ### Looking at the lock -/

def exclusiveHolds (lock : FairLock Thread) (thread : Thread) : Nat :=
  match lock.writer with
  | some (owner, count) => if owner = thread then count else 0
  | none => 0

def sharedHolds (lock : FairLock Thread) (thread : Thread) : Nat :=
  (lock.readers.lookup thread).getD 0

def holds (lock : FairLock Thread) (thread : Thread) : Holds :=
  ⟨lock.exclusiveHolds thread, lock.sharedHolds thread⟩

def isHeldExclusively (lock : FairLock Thread) (thread : Thread) : Bool :=
  match lock.writer with
  | some (owner, _) => owner = thread
  | none => false

def isWaiting (lock : FairLock Thread) (thread : Thread) : Bool :=
  lock.queue.any (·.thread = thread)

/-- Whether a writer waits in front of `thread`. -/
def writerAhead (lock : FairLock Thread) (thread : Thread) : Bool :=
  (lock.queue.takeWhile (·.thread ≠ thread)).any (·.exclusive)

/-- Whether the ticket can be served now. -/
def canServe (lock : FairLock Thread) (ticket : Ticket Thread) : Bool :=
  if ticket.exclusive then
    lock.writer.isNone && lock.readers.isEmpty &&
      (lock.queue.head?.map Ticket.thread) == some ticket.thread
  else lock.writer.isNone && !lock.writerAhead ticket.thread

/-! ### Changing the lock -/

/-- Wakes all waiting threads. -/
def wakeAll (lock : FairLock Thread) : FairLock Thread :=
  { lock with awake := lock.queue.map Ticket.thread }

/-- Sets the number of shared holds of `thread`. -/
def setShared (lock : FairLock Thread) (thread : Thread) (count : Nat) : FairLock Thread :=
  let others := lock.readers.filter (·.1 ≠ thread)
  { lock with readers := if count = 0 then others else (thread, count) :: others }

def dequeue (lock : FairLock Thread) (thread : Thread) : FairLock Thread :=
  { lock with queue := lock.queue.filter (·.thread ≠ thread) }

/-- Gives the lock to the thread of a ticket. A new reader lets the others look again, since
readers behind it may go too. -/
def serve (lock : FairLock Thread) (ticket : Ticket Thread) : FairLock Thread :=
  let lock := lock.dequeue ticket.thread
  if ticket.exclusive then { lock with writer := some (ticket.thread, 1) }
  else lock.wakeAll.setShared ticket.thread (lock.sharedHolds ticket.thread + 1)

/-- Queues up, and is served at once if that is possible. -/
def request (lock : FairLock Thread) (ticket : Ticket Thread) : FairLock Thread × Outcome :=
  let lock := { lock with queue := lock.queue ++ [ticket] }
  if lock.canServe ticket then (lock.serve ticket, .done) else (lock, .waiting)

def lockShared (lock : FairLock Thread) (thread : Thread) : FairLock Thread × Outcome :=
  if (lock.holds thread).reenters then
    (lock.setShared thread (lock.sharedHolds thread + 1), .done)
  else lock.request ⟨thread, false⟩

def lockExclusive (lock : FairLock Thread) (thread : Thread) : FairLock Thread × Outcome :=
  if lock.isHeldExclusively thread then
    ({ lock with writer := some (thread, lock.exclusiveHolds thread + 1) }, .done)
  else if 0 < lock.sharedHolds thread then (lock, .refused .cannotUpgrade)
  else lock.request ⟨thread, true⟩

def unlockShared (lock : FairLock Thread) (thread : Thread) : FairLock Thread × Outcome :=
  match lock.sharedHolds thread with
  | 0 => (lock, .refused .notHeldShared)
  | 1 => ((lock.setShared thread 0).wakeAll, .done)
  | count + 2 => (lock.setShared thread (count + 1), .done)

def unlockExclusive (lock : FairLock Thread) (thread : Thread) : FairLock Thread × Outcome :=
  if lock.isHeldExclusively thread then
    match lock.exclusiveHolds thread with
    | 0 | 1 => (wakeAll { lock with writer := none }, .done)
    | count + 2 => ({ lock with writer := some (thread, count + 1) }, .done)
  else (lock, .refused .notHeldExclusively)

/-! ### Woken threads -/

/-- Lets a woken thread look at the lock. It is served if that is possible, and waits on
otherwise; the answer tells which. -/
def look (lock : FairLock Thread) (thread : Thread) : FairLock Thread × Bool :=
  let lock := { lock with awake := lock.awake.erase thread }
  match lock.queue.find? (·.thread = thread) with
  | some ticket => if lock.canServe ticket then (lock.serve ticket, true) else (lock, false)
  | none => (lock, false)

theorem length_queue_serve_lt (lock : FairLock Thread) {ticket : Ticket Thread}
    (hmem : ticket ∈ lock.queue) : (lock.serve ticket).queue.length < lock.queue.length := by
  have hlt : (lock.queue.filter (·.thread ≠ ticket.thread)).length < lock.queue.length :=
    List.length_filter_lt_length_iff_exists.2 ⟨ticket, hmem, by simp⟩
  unfold serve
  split
  · exact hlt
  · exact hlt

theorem length_queue_look_lt (lock : FairLock Thread) {thread : Thread}
    (hserved : (lock.look thread).2 = true) :
    (lock.look thread).1.queue.length < lock.queue.length := by
  simp only [look] at hserved ⊢
  split at hserved
  · rename_i ticket hfind
    split at hserved
    · rename_i hserve
      simp only [hserve, if_true]
      exact length_queue_serve_lt { lock with awake := lock.awake.erase thread }
        (List.mem_of_find?_eq_some hfind)
    · simp at hserved
  · simp at hserved

/-- A thread that is not served leaves the lock as it was, but is no longer awake. -/
theorem look_eq_of_not_served (lock : FairLock Thread) {thread : Thread}
    (hserved : (lock.look thread).2 = false) :
    (lock.look thread).1 = { lock with awake := lock.awake.erase thread } := by
  simp only [look] at hserved ⊢
  split
  · split
    · simp_all
    · rfl
  · rfl

/-- Every look shortens the queue, or else the list of the woken threads. -/
theorem look_decreases (lock : FairLock Thread) {thread : Thread} (hawake : thread ∈ lock.awake) :
    Prod.Lex (· < ·) (· < ·)
      ((lock.look thread).1.queue.length, (lock.look thread).1.awake.length)
      (lock.queue.length, lock.awake.length) := by
  cases hserved : (lock.look thread).2 with
  | true => exact Prod.Lex.left _ _ (lock.length_queue_look_lt hserved)
  | false =>
    rw [lock.look_eq_of_not_served hserved]
    have := List.length_erase_of_mem hawake
    have := List.length_pos_of_mem hawake
    exact Prod.Lex.right _ (by simp only; omega)

/-- Lets the woken threads look at the lock, one after the other, until none is left. Gives the
threads that were served, in order. -/
def settle (lock : FairLock Thread) : FairLock Thread × List Thread :=
  match hawake : lock.awake with
  | [] => (lock, [])
  | thread :: _ =>
    have hless := lock.look_decreases (show thread ∈ lock.awake by simp [hawake])
    let looked := lock.look thread
    let (settled, others) := looked.1.settle
    (settled, if looked.2 then thread :: others else others)
termination_by (lock.queue.length, lock.awake.length)
decreasing_by exact hless

end FairLock

end ClassWeaver.Lock
