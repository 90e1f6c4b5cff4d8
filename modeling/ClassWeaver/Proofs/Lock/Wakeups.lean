import ClassWeaver.Proofs.Lock.Counts
import Mathlib.Data.List.Basic
import Mathlib.Data.List.TakeWhile

/-!
No waiting thread is forgotten.

A thread that can be served is awake: whatever lets a waiting thread go on also wakes it
(`FairLock.Alert`), and whatever wakes nobody lets nobody go on. So once every thread that was
woken has looked at the lock, all those that still wait have to (`idle_of_settled`). Threads may
look at any time here, woken or not, which covers threads that look only when they are woken.
-/

set_option autoImplicit false
set_option relaxedAutoImplicit false

namespace ClassWeaver.Lock

variable {Thread : Type} [DecidableEq Thread]

namespace FairLock

variable {lock later : FairLock Thread} {thread : Thread} {ticket : Ticket Thread} {mode : Mode}

/-! ### Who can be served -/

/-- Whoever can be served beside more holds could be served before. -/
theorem canServe_of_fewer (hqueue : later.queue = lock.queue)
    (hwriter : later.writer = none → lock.writer = none)
    (hreaders : later.readers = [] → lock.readers = []) (h : later.canServe ticket = true) :
    lock.canServe ticket = true := by
  cases hexclusive : ticket.exclusive with
  | true =>
    rw [canServe_exclusive_iff hexclusive] at h ⊢
    exact ⟨hwriter h.1, hreaders h.2.1, hqueue ▸ h.2.2⟩
  | false =>
    rw [canServe_shared_iff hexclusive] at h ⊢
    refine ⟨hwriter h.1, ?_⟩
    rw [← h.2, writerAhead, writerAhead, hqueue]

/-- A ticket in the queue does not see those that come behind it. -/
theorem canServe_of_enqueue {new : Ticket Thread} (hmem : ticket ∈ lock.queue)
    (h : (lock.enqueue new).canServe ticket = true) : lock.canServe ticket = true := by
  cases hexclusive : ticket.exclusive with
  | true =>
    rw [canServe_exclusive_iff hexclusive] at h ⊢
    obtain ⟨hwriter, hreaders, hhead⟩ := h
    refine ⟨hwriter, hreaders, ?_⟩
    rwa [enqueue, List.head?_append_of_ne_nil _ (List.ne_nil_of_mem hmem)] at hhead
  | false =>
    rw [canServe_shared_iff hexclusive] at h ⊢
    refine ⟨h.1, ?_⟩
    have hahead : (lock.enqueue new).queue.takeWhile (·.thread ≠ ticket.thread) =
        lock.queue.takeWhile (·.thread ≠ ticket.thread) := by
      rw [enqueue, List.takeWhile_append, if_neg]
      intro hlength
      have hall := List.takeWhile_eq_self_iff.mp
        ((List.takeWhile_prefix _).eq_of_length hlength) ticket hmem
      simp at hall
    rw [← h.2, writerAhead, writerAhead, hahead]

/-! ### Whoever can be served is awake -/

/-- Every waiting thread that can be served was woken and has not looked since. -/
def Alert (lock : FairLock Thread) : Prop :=
  ∀ ticket ∈ lock.queue, lock.canServe ticket = true → ticket.thread ∈ lock.awake

theorem alert_wakeAll (lock : FairLock Thread) : lock.wakeAll.Alert :=
  fun _ hmem _ ↦ List.mem_map_of_mem hmem

theorem alert_of_writer {owner : Thread × Nat} (h : lock.writer = some owner) : lock.Alert := by
  intro ticket _ hserve
  rw [writer_of_canServe hserve] at h
  cases h

/-- More holds let nobody go on, so that nobody has to be woken for them. -/
theorem Alert.of_fewer (h : lock.Alert) (hqueue : later.queue = lock.queue)
    (hawake : later.awake = lock.awake) (hwriter : later.writer = none → lock.writer = none)
    (hreaders : later.readers = [] → lock.readers = []) : later.Alert := by
  intro ticket hmem hserve
  rw [hqueue] at hmem
  rw [hawake]
  exact h ticket hmem (canServe_of_fewer hqueue hwriter hreaders hserve)

theorem Alert.setShared (h : lock.Alert) (count : Nat) :
    (lock.setShared thread (count + 1)).Alert :=
  h.of_fewer rfl rfl id fun hempty ↦ absurd hempty (List.cons_ne_nil _ _)

/-- A new writer keeps everybody else waiting, and a new reader wakes everybody. -/
theorem alert_serve (lock : FairLock Thread) (ticket : Ticket Thread) :
    (lock.serve ticket).Alert := by
  rw [serve]
  split
  · exact alert_of_writer rfl
  · exact (alert_wakeAll _).setShared _

/-- A thread that has to wait need not be awake. -/
theorem Alert.enqueue (h : lock.Alert) (hwait : ¬(lock.enqueue ticket).canServe ticket = true) :
    (lock.enqueue ticket).Alert := by
  intro other hmem hserve
  rcases List.mem_append.mp hmem with hold | hnew
  · exact h other hold (canServe_of_enqueue hold hserve)
  · rw [List.mem_singleton.mp hnew] at hserve
    exact absurd hserve hwait

theorem Alert.lockIn (h : lock.Alert) (hlawful : lock.Lawful) (thread : Thread) (mode : Mode) :
    (Threads.lockIn lock mode thread).1.Alert := by
  have hlocks := hlawful.locks thread mode
  generalize Threads.lockIn lock mode thread = call at hlocks ⊢
  cases hlocks with
  | refused => exact h
  | again =>
    cases mode with
    | shared => exact h.setShared _
    | exclusive => exact alert_of_writer rfl
  | served => exact alert_serve _ _
  | waits _ hwait => exact h.enqueue hwait

/-- Giving back the last hold of a mode wakes everybody; as long as some are left, they keep the
same threads waiting as before. -/
theorem Alert.unlockIn (h : lock.Alert) (thread : Thread) (mode : Mode) :
    (Threads.unlockIn lock mode thread).1.Alert := by
  cases mode with
  | shared =>
    rw [Threads.unlockIn, unlockShared]
    split
    · exact h
    · exact alert_wakeAll _
    · exact h.setShared _
  | exclusive =>
    rw [Threads.unlockIn, unlockExclusive]
    split
    · split
      · exact alert_wakeAll _
      · exact alert_wakeAll _
      · exact alert_of_writer rfl
    · exact h

/-- A thread that looks is served, or has to wait, so that it need not be awake any more. -/
theorem Alert.look (h : lock.Alert)
    (hqueue : lock.queue.filter (·.thread = thread) = [ticket]) : (lock.look thread).1.Alert := by
  have hfind : lock.queue.find? (·.thread = thread) = some ticket := by
    rw [← List.head?_filter, hqueue]
    rfl
  simp only [FairLock.look, hfind]
  split
  · exact alert_serve _ ticket
  · rename_i hwait
    intro other hmem hserve
    by_cases hother : other.thread = thread
    · have hself : other ∈ lock.queue.filter (·.thread = thread) :=
        List.mem_filter.mpr ⟨hmem, decide_eq_true hother⟩
      rw [hqueue, List.mem_singleton] at hself
      rw [hself] at hserve
      exact absurd hserve hwait
    · exact (List.mem_erase_of_ne hother).mpr (h other hmem hserve)

/-! ### Locks that nobody holds -/

theorem Lawful.free (h : lock.Lawful) (hfree : ∀ thread mode, lock.count thread mode = 0) :
    lock.writer = none ∧ lock.readers = [] := by
  constructor
  · rw [Option.eq_none_iff_forall_ne_some]
    rintro ⟨owner, holds⟩ hwriter
    have hcount : lock.count owner .exclusive = holds := by
      rw [count, exclusiveHolds, hwriter]
      exact if_pos rfl
    have hheld := (h.writer owner holds hwriter).1
    rw [← hcount, hfree] at hheld
    exact absurd hheld (by decide)
  · cases hreaders : lock.readers with
    | nil => rfl
    | cons reader rest =>
      have hcount : lock.count reader.1 .shared = reader.2 := by
        rw [count, sharedHolds, hreaders, List.lookup_cons, beq_self_eq_true]
        rfl
      have hheld := h.readers reader (hreaders ▸ List.mem_cons_self)
      rw [← hcount, hfree] at hheld
      exact absurd hheld (by decide)

end FairLock

namespace Contest

variable {contest : Contest Thread} {thread : Thread} {mode : Mode} {demand : Demand}

theorem lock_enter : (contest.enter thread mode).lock =
    (Threads.lockIn contest.lock mode thread).1 := by
  rw [enter]
  rcases Threads.lockIn contest.lock mode thread with ⟨lock, outcome⟩
  cases outcome with
  | refused error => rfl
  | waiting => rfl
  | done =>
    dsimp only
    by_cases hholds : (contest.lock.holds thread).reenters = true
    · rw [if_pos hholds]
      rfl
    · rw [if_neg hholds]
      rfl

theorem lock_look : (contest.look thread demand).lock = (contest.lock.look thread).1 := by
  rw [look]
  rcases contest.lock.look thread with ⟨lock, served⟩
  cases served with
  | true => rfl
  | false => rfl

theorem lock_leave : (contest.leave thread mode).lock =
    (Threads.unlockIn contest.lock mode thread).1 := by
  rw [leave]
  rcases Threads.unlockIn contest.lock mode thread with ⟨lock, outcome⟩
  by_cases hdone : outcome = .done
  · simp only [if_pos hdone]
    rfl
  · simp only [if_neg hdone]

/-- In every contest that can be reached, whoever can be served is awake. -/
theorem Reachable.alert (h : contest.Reachable) : contest.lock.Alert := by
  induction h with
  | refl => exact fun _ hmem ↦ absurd hmem List.not_mem_nil
  | tail hsteps hstep ih =>
    have hsound := Reachable.sound hsteps
    cases hstep with
    | @enter thread mode hfree =>
      rw [lock_enter]
      exact ih.lockIn hsound.lawful thread mode
    | @look thread demand hblocked =>
      have hqueue := hsound.queued thread
      rw [hblocked] at hqueue
      rw [lock_look]
      exact ih.look hqueue
    | @leave thread mode hfree =>
      rw [lock_leave]
      exact ih.unlockIn thread mode

/-! ### Settled contests -/

/-- A waiting thread that was woken and has not looked since. -/
def Due (contest : Contest Thread) (thread : Thread) : Prop :=
  contest.blocked thread ≠ none ∧ thread ∈ contest.lock.awake

/-- Every waiting thread has looked since it was last woken. -/
def Settled (contest : Contest Thread) : Prop :=
  ∀ thread, ¬contest.Due thread

theorem Sound.mem_queue_iff (h : contest.Sound) {ticket : Ticket Thread} :
    ticket ∈ contest.lock.queue ↔
      ∃ demand, contest.blocked ticket.thread = some demand ∧
        demand.mode.ticket ticket.thread = ticket := by
  have hown : ticket ∈ contest.lock.queue ↔
      ticket ∈ contest.lock.queue.filter (·.thread = ticket.thread) := by
    rw [List.mem_filter, decide_eq_true_iff, and_iff_left rfl]
  rw [hown, h.queued, List.mem_map]
  simp only [Option.mem_toList]

/-- In a settled contest every waiting thread has to wait. -/
theorem Settled.canServe_eq_false (hsettled : contest.Settled) (h : contest.Reachable)
    {ticket : Ticket Thread} (hmem : ticket ∈ contest.lock.queue) :
    contest.lock.canServe ticket = false := by
  rw [Bool.eq_false_iff]
  intro hserve
  obtain ⟨demand, hblocked, -⟩ := h.sound.mem_queue_iff.mp hmem
  refine hsettled ticket.thread ⟨?_, h.alert ticket hmem hserve⟩
  rw [hblocked]
  exact Option.some_ne_none demand

/-- The first ticket of a queue that has to wait although there is no writer is that of a thread
that waits for readers to leave. -/
theorem front_of_canServe_eq_false {front : Ticket Thread} {rest : List (Ticket Thread)}
    (hqueue : contest.lock.queue = front :: rest) (hwriter : contest.lock.writer = none)
    (hwait : contest.lock.canServe front = false) :
    front.exclusive = true ∧ contest.lock.readers ≠ [] := by
  rw [Bool.eq_false_iff] at hwait
  cases hexclusive : front.exclusive with
  | true =>
    refine ⟨rfl, fun hreaders ↦ hwait ?_⟩
    rw [FairLock.canServe_exclusive_iff hexclusive, hqueue]
    exact ⟨hwriter, hreaders, rfl⟩
  | false =>
    refine absurd ?_ hwait
    rw [FairLock.canServe_shared_iff hexclusive, FairLock.writerAhead, hqueue]
    exact ⟨hwriter, by simp⟩

theorem Settled.queue_of_no_writer (hsettled : contest.Settled) (h : contest.Reachable)
    (hwriter : contest.lock.writer = none) :
    contest.lock.queue = [] ∨ ∃ front rest, contest.lock.queue = front :: rest ∧
      front.exclusive = true ∧ contest.lock.readers ≠ [] := by
  cases hqueue : contest.lock.queue with
  | nil => exact .inl rfl
  | cons front rest =>
    have hwait : contest.lock.canServe front = false :=
      hsettled.canServe_eq_false h (hqueue ▸ List.mem_cons_self)
    exact .inr ⟨front, rest, rfl, front_of_canServe_eq_false hqueue hwriter hwait⟩

/-- Nobody waits for longer than there is a reason to. Once every waiting thread has looked since
it was last woken, each of them has to wait. If there is no writer then, the queue is empty, or a
writer in front waits for readers to leave; and if nobody holds the lock, nobody waits. -/
theorem idle_of_settled (h : contest.Reachable) (hsettled : contest.Settled) :
    (∀ thread demand, contest.blocked thread = some demand →
      contest.lock.canServe (demand.mode.ticket thread) = false) ∧
    (contest.lock.writer = none →
      contest.lock.queue = [] ∨ ∃ front rest, contest.lock.queue = front :: rest ∧
        front.exclusive = true ∧ contest.lock.readers ≠ []) ∧
    ((∀ thread mode, contest.lock.count thread mode = 0) →
      ∀ thread, contest.blocked thread = none) := by
  refine ⟨fun thread demand hblocked ↦ ?_, hsettled.queue_of_no_writer h, fun hfree thread ↦ ?_⟩
  · exact hsettled.canServe_eq_false h (h.sound.mem_queue_iff.mpr ⟨demand, hblocked, rfl⟩)
  · obtain ⟨hwriter, hreaders⟩ := h.sound.lawful.free hfree
    rw [Option.eq_none_iff_forall_ne_some]
    intro demand hblocked
    have hmem : demand.mode.ticket thread ∈ contest.lock.queue :=
      h.sound.mem_queue_iff.mpr ⟨demand, hblocked, rfl⟩
    rcases hsettled.queue_of_no_writer h hwriter with hempty | ⟨_, _, _, _, hsome⟩
    · rw [hempty] at hmem
      exact absurd hmem List.not_mem_nil
    · exact hsome hreaders

/-- A reader holds the lock, and a writer waits for it to leave. -/
def awaited : Contest Bool :=
  (start.enter true .shared).enter false .exclusive

theorem reachable_awaited : awaited.Reachable :=
  .tail (.tail .refl (.enter .shared rfl)) (.enter .exclusive rfl)

theorem idle_of_settled_awaited :
    awaited.Reachable ∧ awaited.Settled ∧ awaited.blocked false = some ⟨.exclusive, 1⟩ ∧
      awaited.lock.canServe ⟨false, true⟩ = false ∧ awaited.lock.writer = none ∧
      (awaited.lock.queue = [] ∨ ∃ front rest, awaited.lock.queue = front :: rest ∧
        front.exclusive = true ∧ awaited.lock.readers ≠ []) := by
  have hsettled : awaited.Settled := fun thread hdue ↦ absurd hdue.2 (by cases thread <;> decide)
  have hblocked : awaited.blocked false = some ⟨.exclusive, 1⟩ := by decide
  obtain ⟨hwait, hqueue, -⟩ := idle_of_settled reachable_awaited hsettled
  exact ⟨reachable_awaited, hsettled, hblocked, hwait false _ hblocked, rfl, hqueue rfl⟩

end Contest

end ClassWeaver.Lock
