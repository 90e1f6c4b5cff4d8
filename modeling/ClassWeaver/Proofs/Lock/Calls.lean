import ClassWeaver.Proofs.Lock.Contest

/-!
What a call does to a lock.

A call gives its thread one more hold of the mode that it names, or takes one back, or does neither;
the holds of other threads stay as they are. In a lock that was unlocked once, nobody holds anything
beside the exclusive holder (`Lawful`).
-/

set_option autoImplicit false
set_option relaxedAutoImplicit false

namespace ClassWeaver.Lock

variable {Thread : Type} [DecidableEq Thread]

theorem tally_of_ne {counts : Thread → Mode → Nat} {thread other : Thread} (mode kind : Mode)
    (hother : other ≠ thread) : tally counts thread mode other kind = counts other kind := by
  rw [tally, if_neg fun h ↦ hother h.1]

theorem tally_add (counts others : Thread → Mode → Nat) (thread other : Thread)
    (mode kind : Mode) : tally counts thread mode other kind + others other kind =
      tally (fun other kind ↦ counts other kind + others other kind) thread mode other kind := by
  simp only [tally]
  split <;> omega

theorem add_tally (counts others : Thread → Mode → Nat) (thread other : Thread)
    (mode kind : Mode) : counts other kind + tally others thread mode other kind =
      tally counts thread mode other kind + others other kind := by
  simp only [tally]
  split <;> omega

/-- To note one more hold is to raise one count. -/
theorem tally_eq (counts : Thread → Mode → Nat) (thread other : Thread) (mode kind : Mode) :
    tally counts thread mode other kind =
      if other = thread ∧ kind = mode then counts thread mode + 1 else counts other kind := by
  rw [tally]
  split
  · rename_i hsame
    rw [hsame.1, hsame.2]
  · rfl

/-- To note one more hold undoes that a count was lowered. -/
theorem tally_of_lowered {counts lowered : Thread → Mode → Nat} {thread other : Thread}
    {mode kind : Mode} {number : Nat} (hnumber : counts thread mode = number + 1)
    (hlowered : lowered other kind =
      if other = thread ∧ kind = mode then number else counts other kind) :
    tally lowered thread mode other kind = counts other kind := by
  rw [tally, hlowered]
  split
  · rename_i hsame
    rw [hsame.1, hsame.2, hnumber]
  · rfl

omit [DecidableEq Thread] in
theorem Ticket.exists_mode (ticket : Ticket Thread) :
    ∃ mode : Mode, mode.ticket ticket.thread = ticket := by
  obtain ⟨thread, _ | _⟩ := ticket
  · exact ⟨.shared, rfl⟩
  · exact ⟨.exclusive, rfl⟩

namespace FairLock

variable {lock later : FairLock Thread} {thread other : Thread} {mode : Mode}

/-! ### Holds -/

theorem isHeldExclusively_iff :
    lock.isHeldExclusively thread = true ↔ ∃ count, lock.writer = some (thread, count) := by
  unfold isHeldExclusively
  cases hwriter : lock.writer with
  | none => simp
  | some writer => simp [Prod.ext_iff]

theorem isHeldExclusively_of_exclusiveHolds (h : 0 < lock.exclusiveHolds thread) :
    lock.isHeldExclusively thread = true := by
  unfold exclusiveHolds at h
  unfold isHeldExclusively
  split at h
  · rename_i owner count hwriter
    split at h
    · simpa [hwriter]
    · cases h
  · cases h

theorem lookup_filter_ne (readers : List (Thread × Nat)) :
    (readers.filter (·.1 ≠ thread)).lookup other =
      if other = thread then none else readers.lookup other := by
  induction readers with
  | nil => simp
  | cons reader rest ih =>
    obtain ⟨owner, count⟩ := reader
    by_cases howner : owner = thread
    · rw [List.filter_cons_of_neg (by simpa using howner), ih]
      split
      · rfl
      · rename_i hother
        rw [List.lookup_cons, beq_eq_false_iff_ne.mpr fun hsame ↦ hother (hsame.trans howner)]
    · rw [List.filter_cons_of_pos (by simpa using howner), List.lookup_cons, ih, List.lookup_cons]
      cases hsame : other == owner with
      | true => simp [beq_iff_eq.mp hsame, howner]
      | false => rfl

theorem sharedHolds_setShared (lock : FairLock Thread) (thread other : Thread) (count : Nat) :
    (lock.setShared thread count).sharedHolds other =
      if other = thread then count else lock.sharedHolds other := by
  rw [sharedHolds, setShared]
  by_cases hcount : count = 0
  · rw [if_pos hcount, lookup_filter_ne, hcount]
    split
    · rfl
    · rfl
  · rw [if_neg hcount, List.lookup_cons]
    by_cases hother : other = thread
    · simp [hother]
    · rw [beq_eq_false_iff_ne.mpr hother, if_neg hother]
      simp only [lookup_filter_ne, if_neg hother, sharedHolds]

/-! ### Locks in order -/

/-- A lock as calls leave it: whoever is noted to hold it does, and nobody holds anything beside
the exclusive holder. -/
structure Lawful (lock : FairLock Thread) : Prop where
  writer : ∀ thread count, lock.writer = some (thread, count) →
    1 ≤ count ∧ ∀ reader ∈ lock.readers, reader.1 = thread
  readers : ∀ reader ∈ lock.readers, 1 ≤ reader.2
  distinct : (lock.readers.map Prod.fst).Nodup

omit [DecidableEq Thread] in
theorem lawful_unlocked : (unlocked : FairLock Thread).Lawful :=
  ⟨nofun, nofun, List.nodup_nil⟩

/-- The number of holds of a thread in a mode. -/
def count (lock : FairLock Thread) (thread : Thread) : Mode → Nat
  | .shared => lock.sharedHolds thread
  | .exclusive => lock.exclusiveHolds thread

/-- Who waits and who is awake does not matter for the holds. -/
theorem count_congr (hwriter : later.writer = lock.writer)
    (hreaders : later.readers = lock.readers) : later.count = lock.count := by
  funext other kind
  cases kind with
  | shared => rw [count, count, sharedHolds, sharedHolds, hreaders]
  | exclusive => rw [count, count, exclusiveHolds, exclusiveHolds, hwriter]

omit [DecidableEq Thread] in
theorem Lawful.congr (h : lock.Lawful) (hwriter : later.writer = lock.writer)
    (hreaders : later.readers = lock.readers) : later.Lawful where
  writer := by rw [hwriter, hreaders]; exact h.writer
  readers := by rw [hreaders]; exact h.readers
  distinct := by rw [hreaders]; exact h.distinct

theorem reenters_iff :
    (lock.holds thread).reenters = true ↔ ∃ mode, 0 < lock.count thread mode := by
  rw [Holds.reenters, Bool.or_eq_true, decide_eq_true_iff, decide_eq_true_iff]
  constructor
  · rintro (hexclusive | hshared)
    · exact ⟨.exclusive, hexclusive⟩
    · exact ⟨.shared, hshared⟩
  · rintro ⟨_ | _, hheld⟩
    · exact .inr hheld
    · exact .inl hheld

theorem Lawful.isHeldExclusively_iff (h : lock.Lawful) :
    lock.isHeldExclusively thread = true ↔ 0 < lock.count thread .exclusive := by
  refine ⟨fun hheld ↦ ?_, isHeldExclusively_of_exclusiveHolds⟩
  obtain ⟨count, hwriter⟩ := FairLock.isHeldExclusively_iff.mp hheld
  rw [FairLock.count, exclusiveHolds, hwriter]
  dsimp only
  rw [if_pos rfl]
  exact (h.writer thread count hwriter).1

/-- Whether nobody stands in the way of a thread that asks for a mode. -/
structure Entitled (lock : FairLock Thread) (thread : Thread) (mode : Mode) : Prop where
  writer : ∀ owner count, lock.writer = some (owner, count) → owner = thread
  readers : mode = .exclusive → ∀ reader ∈ lock.readers, reader.1 = thread

theorem mem_readers_of_sharedHolds (h : 0 < lock.sharedHolds thread) :
    (thread, lock.sharedHolds thread) ∈ lock.readers := by
  rw [sharedHolds] at h ⊢
  cases hlookup : lock.readers.lookup thread with
  | none =>
    rw [hlookup] at h
    cases h
  | some count =>
    obtain ⟨front, back, hreaders, -⟩ := List.lookup_eq_some_iff.mp hlookup
    rw [hreaders]
    exact List.mem_append_right _ (List.mem_cons_self ..)

theorem Lawful.entitled_exclusive (h : lock.Lawful) (hheld : 0 < lock.count thread .exclusive) :
    lock.Entitled thread mode := by
  obtain ⟨count, hwriter⟩ :=
    FairLock.isHeldExclusively_iff.mp (h.isHeldExclusively_iff.mpr hheld)
  refine ⟨fun owner total howner ↦ ?_, fun _ ↦ (h.writer thread count hwriter).2⟩
  rw [hwriter] at howner
  exact (Prod.mk.inj (Option.some.inj howner)).1.symm

theorem Lawful.entitled_shared (h : lock.Lawful) (hheld : ∃ mode, 0 < lock.count thread mode) :
    lock.Entitled thread .shared := by
  obtain ⟨_ | _, hheld⟩ := hheld
  · refine ⟨fun owner count howner ↦ ?_, nofun⟩
    exact ((h.writer owner count howner).2 _ (mem_readers_of_sharedHolds hheld)).symm
  · exact h.entitled_exclusive hheld

/-! ### One more hold -/

/-- Gives a thread one more hold. -/
def regain (lock : FairLock Thread) (thread : Thread) : Mode → FairLock Thread
  | .shared => lock.setShared thread (lock.sharedHolds thread + 1)
  | .exclusive => { lock with writer := some (thread, lock.exclusiveHolds thread + 1) }

theorem queue_regain (mode : Mode) : (lock.regain thread mode).queue = lock.queue := by
  cases mode with
  | shared => rfl
  | exclusive => rfl

theorem mem_readers_setShared {number : Nat} {reader : Thread × Nat}
    (h : reader ∈ (lock.setShared thread number).readers) :
    (0 < number ∧ reader = (thread, number)) ∨ (reader ∈ lock.readers ∧ reader.1 ≠ thread) := by
  rw [setShared] at h
  dsimp only at h
  split at h
  · exact .inr (by simpa using h)
  · rename_i hnumber
    rcases List.mem_cons.mp h with hself | hother
    · exact .inl ⟨Nat.pos_of_ne_zero hnumber, hself⟩
    · exact .inr (by simpa using hother)

theorem Lawful.setShared (h : lock.Lawful) (number : Nat)
    (halone : 0 < number → ∀ owner count, lock.writer = some (owner, count) → owner = thread) :
    (lock.setShared thread number).Lawful where
  writer owner count howner := by
    refine ⟨(h.writer owner count howner).1, fun reader hreader ↦ ?_⟩
    rcases mem_readers_setShared hreader with ⟨hpositive, hself⟩ | ⟨hmem, -⟩
    · rw [hself]
      exact (halone hpositive owner count howner).symm
    · exact (h.writer owner count howner).2 reader hmem
  readers reader hreader := by
    rcases mem_readers_setShared hreader with ⟨hpositive, hself⟩ | ⟨hmem, -⟩
    · rw [hself]
      exact hpositive
    · exact h.readers reader hmem
  distinct := by
    have hothers : ((lock.readers.filter (·.1 ≠ thread)).map Prod.fst).Nodup :=
      h.distinct.sublist (List.filter_sublist.map _)
    rw [FairLock.setShared]
    dsimp only
    split
    · exact hothers
    · exact List.nodup_cons.mpr ⟨by simp, hothers⟩

omit [DecidableEq Thread] in
theorem Lawful.setExclusive (h : lock.Lawful) (number : Nat)
    (halone : ∀ reader ∈ lock.readers, reader.1 = thread) :
    { lock with writer := some (thread, number + 1) }.Lawful where
  writer owner count howner := by
    obtain ⟨rfl, rfl⟩ := Prod.mk.inj (Option.some.inj howner)
    exact ⟨Nat.succ_pos number, halone⟩
  readers := h.readers
  distinct := h.distinct

theorem Lawful.regain (h : lock.Lawful) (hentitled : lock.Entitled thread mode) :
    (lock.regain thread mode).Lawful := by
  cases mode with
  | shared => exact h.setShared _ fun _ ↦ hentitled.writer
  | exclusive => exact h.setExclusive _ (hentitled.readers rfl)

theorem count_setShared (number : Nat) (kind : Mode) :
    (lock.setShared thread number).count other kind =
      if other = thread ∧ kind = .shared then number else lock.count other kind := by
  cases kind with
  | shared =>
    rw [count, sharedHolds_setShared]
    simp only [and_true, count]
  | exclusive =>
    rw [if_neg (by simp)]
    rfl

theorem count_setExclusive {number : Nat} (kind : Mode)
    (halone : ∀ owner count, lock.writer = some (owner, count) → owner = thread) :
    { lock with writer := some (thread, number) }.count other kind =
      if other = thread ∧ kind = .exclusive then number else lock.count other kind := by
  cases kind with
  | shared =>
    rw [if_neg (by simp)]
    rfl
  | exclusive =>
    simp only [and_true, count, exclusiveHolds]
    by_cases hother : other = thread
    · rw [if_pos hother, if_pos hother.symm]
    · rw [if_neg hother, if_neg (Ne.symm hother)]
      cases hwriter : lock.writer with
      | none => rfl
      | some writer =>
        obtain rfl := halone writer.1 writer.2 hwriter
        exact (if_neg (Ne.symm hother)).symm

theorem count_regain (hentitled : lock.Entitled thread mode) (other : Thread) (kind : Mode) :
    (lock.regain thread mode).count other kind = tally lock.count thread mode other kind := by
  rw [tally_eq]
  cases mode with
  | shared => exact count_setShared _ kind
  | exclusive => exact count_setExclusive kind hentitled.writer

/-! ### Getting the lock -/

theorem canServe_exclusive_iff {ticket : Ticket Thread} (h : ticket.exclusive = true) :
    lock.canServe ticket = true ↔ lock.writer = none ∧ lock.readers = [] ∧
      lock.queue.head?.map Ticket.thread = some ticket.thread := by
  rw [canServe, if_pos h, Bool.and_eq_true, Bool.and_eq_true, Option.isNone_iff_eq_none,
    List.isEmpty_iff, beq_iff_eq, and_assoc]

theorem canServe_shared_iff {ticket : Ticket Thread} (h : ticket.exclusive = false) :
    lock.canServe ticket = true ↔ lock.writer = none ∧ lock.writerAhead ticket.thread = false := by
  rw [canServe, if_neg (by simp [h]), Bool.and_eq_true, Option.isNone_iff_eq_none,
    Bool.not_eq_true']

theorem writer_of_canServe {ticket : Ticket Thread} (h : lock.canServe ticket = true) :
    lock.writer = none := by
  cases hexclusive : ticket.exclusive with
  | true => exact ((canServe_exclusive_iff hexclusive).mp h).1
  | false => exact ((canServe_shared_iff hexclusive).mp h).1

theorem entitled_of_canServe (h : lock.canServe (mode.ticket thread) = true) :
    lock.Entitled thread mode where
  writer owner count howner := by
    rw [writer_of_canServe h] at howner
    cases howner
  readers hmode := by
    subst hmode
    rw [((canServe_exclusive_iff rfl).mp h).2.1]
    exact nofun

/-- Serving a thread gives it one more hold. -/
theorem serve_ticket (h : lock.canServe (mode.ticket thread) = true) :
    lock.serve (mode.ticket thread) =
      { lock.regain thread mode with
        queue := (lock.serve (mode.ticket thread)).queue
        awake := (lock.serve (mode.ticket thread)).awake } := by
  cases mode with
  | shared => rfl
  | exclusive =>
    have hnone : lock.exclusiveHolds thread = 0 := by rw [exclusiveHolds, writer_of_canServe h]
    rw [regain, hnone]
    rfl

/-- One thread has one more hold in a mode than before, and all else is as it was. -/
structure Gains (lock : FairLock Thread) (thread : Thread) (mode : Mode)
    (later : FairLock Thread) : Prop where
  lawful : later.Lawful
  count : ∀ other kind, later.count other kind = tally lock.count thread mode other kind

theorem Lawful.gains_regain (h : lock.Lawful) (hentitled : lock.Entitled thread mode) :
    lock.Gains thread mode (lock.regain thread mode) :=
  ⟨h.regain hentitled, count_regain hentitled⟩

theorem Lawful.gains_serve (h : lock.Lawful)
    (hserve : lock.canServe (mode.ticket thread) = true) :
    lock.Gains thread mode (lock.serve (mode.ticket thread)) := by
  have hgains := h.gains_regain (entitled_of_canServe hserve)
  have hlock := serve_ticket hserve
  have hwriter := congrArg FairLock.writer hlock
  have hreaders := congrArg FairLock.readers hlock
  exact ⟨hgains.lawful.congr hwriter hreaders, fun other kind ↦
    (congrFun₂ (count_congr hwriter hreaders) other kind).trans (hgains.count other kind)⟩

theorem queue_serve (ticket : Ticket Thread) :
    (lock.serve ticket).queue = lock.queue.filter (·.thread ≠ ticket.thread) := by
  rw [serve]
  split
  · rfl
  · rfl

/-- Puts a ticket at the end of the queue. -/
def enqueue (lock : FairLock Thread) (ticket : Ticket Thread) : FairLock Thread :=
  { lock with queue := lock.queue ++ [ticket] }

omit [DecidableEq Thread] in
theorem Lawful.enqueue (h : lock.Lawful) (ticket : Ticket Thread) : (lock.enqueue ticket).Lawful :=
  h.congr rfl rfl

/-- Whether a call is refused: holding only the shared mode, a thread cannot get the other. -/
def Refuses (lock : FairLock Thread) (thread : Thread) (mode : Mode) : Prop :=
  mode = .exclusive ∧ lock.count thread .exclusive = 0 ∧ 0 < lock.count thread .shared

/-- What a call to get the lock leaves and answers: it is refused, or adds to what its thread holds,
or takes a ticket and is served at once or waits. -/
inductive Locks (lock : FairLock Thread) (thread : Thread) (mode : Mode) :
    FairLock Thread × Outcome → Prop
  | refused (hrefuses : lock.Refuses thread mode) :
    Locks lock thread mode (lock, .refused .cannotUpgrade)
  | again (hreenters : (lock.holds thread).reenters = true)
      (hentitled : lock.Entitled thread mode) :
    Locks lock thread mode (lock.regain thread mode, .done)
  | served (hfirst : (lock.holds thread).reenters = false)
      (hserve : (lock.enqueue (mode.ticket thread)).canServe (mode.ticket thread) = true) :
    Locks lock thread mode
      ((lock.enqueue (mode.ticket thread)).serve (mode.ticket thread), .done)
  | waits (hfirst : (lock.holds thread).reenters = false)
      (hwait : ¬(lock.enqueue (mode.ticket thread)).canServe (mode.ticket thread) = true) :
    Locks lock thread mode (lock.enqueue (mode.ticket thread), .waiting)

theorem locks_request (hfirst : (lock.holds thread).reenters = false) :
    lock.Locks thread mode (lock.request (mode.ticket thread)) := by
  rw [request]
  split
  · rename_i hserve
    exact .served hfirst hserve
  · rename_i hwait
    exact .waits hfirst hwait

theorem Lawful.locks (h : lock.Lawful) (thread : Thread) (mode : Mode) :
    lock.Locks thread mode (Threads.lockIn lock mode thread) := by
  cases mode with
  | shared =>
    rw [Threads.lockIn, lockShared]
    cases hreenters : (lock.holds thread).reenters with
    | true => exact .again hreenters (h.entitled_shared (reenters_iff.mp hreenters))
    | false => exact locks_request hreenters
  | exclusive =>
    rw [Threads.lockIn, lockExclusive]
    by_cases hheld : lock.isHeldExclusively thread = true
    · have hcount := h.isHeldExclusively_iff.mp hheld
      rw [if_pos hheld]
      exact .again (reenters_iff.mpr ⟨_, hcount⟩) (h.entitled_exclusive hcount)
    · have hcount : lock.count thread .exclusive = 0 :=
        Nat.eq_zero_of_not_pos fun hpositive ↦ hheld (h.isHeldExclusively_iff.mpr hpositive)
      rw [if_neg hheld]
      by_cases hshared : 0 < lock.sharedHolds thread
      · rw [if_pos hshared]
        exact .refused ⟨rfl, hcount, hshared⟩
      · rw [if_neg hshared]
        refine locks_request ?_
        rw [Bool.eq_false_iff, ne_eq, reenters_iff]
        rintro ⟨_ | _, hpositive⟩
        · exact hshared hpositive
        · exact absurd hpositive (by rw [hcount]; exact Nat.lt_irrefl 0)

theorem Lawful.lockIn_of_refuses (h : lock.Lawful) (hrefuses : lock.Refuses thread mode) :
    Threads.lockIn lock mode thread = (lock, .refused .cannotUpgrade) := by
  obtain ⟨rfl, hexclusive, hshared⟩ := hrefuses
  have hheld : ¬lock.isHeldExclusively thread = true := by
    rw [h.isHeldExclusively_iff, hexclusive]
    exact Nat.lt_irrefl 0
  rw [Threads.lockIn, lockExclusive, if_neg hheld]
  exact if_pos hshared

/-- A call that returns has given its thread one more hold. -/
theorem Lawful.gains_lockIn (h : lock.Lawful)
    (hdone : (Threads.lockIn lock mode thread).2 = .done) :
    lock.Gains thread mode (Threads.lockIn lock mode thread).1 := by
  have hlocks := h.locks thread mode
  generalize Threads.lockIn lock mode thread = call at hdone hlocks ⊢
  cases hlocks with
  | refused => cases hdone
  | again _ hentitled => exact h.gains_regain hentitled
  | served _ hserve =>
    have hgains := (h.enqueue (mode.ticket thread)).gains_serve hserve
    exact ⟨hgains.lawful, hgains.count⟩
  | waits => cases hdone

/-- A call waits only if its thread holds nothing. -/
theorem Lawful.lockIn_of_waiting (h : lock.Lawful)
    (hwaiting : (Threads.lockIn lock mode thread).2 = .waiting) :
    (lock.holds thread).reenters = false ∧
      (Threads.lockIn lock mode thread).1 = lock.enqueue (mode.ticket thread) := by
  have hlocks := h.locks thread mode
  generalize Threads.lockIn lock mode thread = call at hwaiting hlocks ⊢
  cases hlocks with
  | refused => cases hwaiting
  | again => cases hwaiting
  | served => cases hwaiting
  | waits hfirst => exact ⟨hfirst, rfl⟩

/-- A call is refused only for want of an exclusive hold. -/
theorem Lawful.refuses_of_refused (h : lock.Lawful) {error : StateError}
    (hrefused : (Threads.lockIn lock mode thread).2 = .refused error) :
    lock.Refuses thread mode ∧ error = .cannotUpgrade := by
  have hlocks := h.locks thread mode
  generalize Threads.lockIn lock mode thread = call at hrefused hlocks
  cases hlocks with
  | refused hrefuses => exact ⟨hrefuses, (Outcome.refused.inj hrefused).symm⟩
  | again => cases hrefused
  | served => cases hrefused
  | waits => cases hrefused

/-- Only a call that waits puts its ticket into the queue. -/
theorem Lawful.mem_queue_lockIn (h : lock.Lawful) {ticket : Ticket Thread}
    (hmem : ticket ∈ (Threads.lockIn lock mode thread).1.queue) :
    ticket ∈ lock.queue ∨
      ((Threads.lockIn lock mode thread).2 = .waiting ∧ ticket = mode.ticket thread) := by
  have hlocks := h.locks thread mode
  generalize Threads.lockIn lock mode thread = call at hmem hlocks ⊢
  cases hlocks with
  | refused => exact .inl hmem
  | again =>
    rw [queue_regain] at hmem
    exact .inl hmem
  | served =>
    rw [queue_serve] at hmem
    obtain ⟨hqueued, hother⟩ := List.mem_filter.mp hmem
    rcases List.mem_append.mp hqueued with hold | hnew
    · exact .inl hold
    · rw [List.mem_singleton.mp hnew] at hother
      exact absurd rfl (of_decide_eq_true hother)
  | waits =>
    exact (List.mem_append.mp hmem).imp_right fun hnew ↦ ⟨rfl, List.mem_singleton.mp hnew⟩

theorem lockIn_of_refused {error : StateError}
    (h : (Threads.lockIn lock mode thread).2 = .refused error) :
    (Threads.lockIn lock mode thread).1 = lock := by
  have hrequest (ticket : Ticket Thread) : (lock.request ticket).2 ≠ .refused error := by
    rw [request]
    split
    · exact fun hsame ↦ by cases hsame
    · exact fun hsame ↦ by cases hsame
  cases mode with
  | shared =>
    rw [Threads.lockIn, lockShared] at h
    split at h
    · cases h
    · exact absurd h (hrequest _)
  | exclusive =>
    rw [Threads.lockIn, lockExclusive] at h ⊢
    split at h
    · cases h
    · rename_i hheld
      rw [if_neg hheld]
      split at h
      · rename_i hshared
        rw [if_pos hshared]
      · exact absurd h (hrequest _)

/-- A thread that looks at the lock is served, or waits on. -/
theorem Lawful.look_cases (h : lock.Lawful) (thread : Thread) :
    lock.look thread = ({ lock with awake := lock.awake.erase thread }, false) ∨
    ∃ mode : Mode, mode.ticket thread ∈ lock.queue ∧ (lock.look thread).2 = true ∧
      lock.Gains thread mode (lock.look thread).1 ∧
      (lock.look thread).1.queue = lock.queue.filter (·.thread ≠ thread) := by
  let dozing := { lock with awake := lock.awake.erase thread }
  have hlook : lock.look thread = match lock.queue.find? (·.thread = thread) with
    | some ticket => if dozing.canServe ticket then (dozing.serve ticket, true) else (dozing, false)
    | none => (dozing, false) := rfl
  cases hfind : lock.queue.find? (·.thread = thread) with
  | none =>
    rw [hlook, hfind]
    exact .inl rfl
  | some ticket =>
    have hthread : ticket.thread = thread := by simpa using List.find?_some hfind
    subst hthread
    rw [hlook, hfind]
    by_cases hserve : dozing.canServe ticket = true
    · obtain ⟨mode, hticket⟩ := ticket.exists_mode
      have hdozing : dozing.Lawful := h.congr rfl rfl
      have hgains : dozing.Gains ticket.thread mode (dozing.serve (mode.ticket ticket.thread)) :=
        hdozing.gains_serve (by rwa [hticket])
      rw [hticket] at hgains
      have hmem : mode.ticket ticket.thread ∈ lock.queue := by
        rw [hticket]
        exact List.mem_of_find?_eq_some hfind
      refine .inr ⟨mode, hmem, ?_⟩
      dsimp only
      rw [if_pos hserve]
      exact ⟨rfl, ⟨hgains.lawful, hgains.count⟩, queue_serve ticket⟩
    · exact .inl (if_neg hserve)

/-! ### Giving the lock back -/

theorem unlockIn_of_refused (h : (Threads.unlockIn lock mode thread).2 ≠ .done) :
    (Threads.unlockIn lock mode thread).1 = lock := by
  cases mode with
  | shared =>
    rw [Threads.unlockIn, unlockShared] at h ⊢
    split at h
    · rfl
    · exact absurd rfl h
    · exact absurd rfl h
  | exclusive =>
    rw [Threads.unlockIn, unlockExclusive] at h ⊢
    split at h
    · rename_i hheld
      split at h
      · exact absurd rfl h
      · exact absurd rfl h
      · exact absurd rfl h
    · rename_i hheld
      rw [if_neg hheld]

theorem Lawful.unlockIn (h : lock.Lawful) (thread : Thread) (mode : Mode) :
    (Threads.unlockIn lock mode thread).1.Lawful := by
  cases mode with
  | shared =>
    rw [Threads.unlockIn, unlockShared]
    split
    · exact h
    · have hcleared : (lock.setShared thread 0).Lawful :=
        h.setShared 0 fun hpositive ↦ absurd hpositive (Nat.lt_irrefl 0)
      exact ⟨hcleared.writer, hcleared.readers, hcleared.distinct⟩
    · rename_i count hholds
      have hheld : 0 < lock.count thread .shared := by rw [FairLock.count, hholds]; omega
      exact h.setShared _ fun _ ↦ (h.entitled_shared ⟨_, hheld⟩).writer
  | exclusive =>
    rw [Threads.unlockIn, unlockExclusive]
    split
    · rename_i hheld
      have hcleared : (wakeAll { lock with writer := none }).Lawful :=
        ⟨fun _ _ howner ↦ absurd howner.symm (Option.some_ne_none _), h.readers, h.distinct⟩
      split
      · exact hcleared
      · exact hcleared
      · have hentitled : lock.Entitled thread .exclusive :=
          h.entitled_exclusive (h.isHeldExclusively_iff.mp hheld)
        exact h.setExclusive _ (hentitled.readers rfl)
    · exact h

theorem count_clearExclusive (kind : Mode)
    (halone : ∀ owner count, lock.writer = some (owner, count) → owner = thread) :
    { lock with writer := none }.count other kind =
      if other = thread ∧ kind = .exclusive then 0 else lock.count other kind := by
  rw [← count_setExclusive kind halone]
  cases kind with
  | shared => rfl
  | exclusive => simp [count, exclusiveHolds]

/-- Giving a hold back undoes getting it. -/
theorem Lawful.tally_unlockIn (h : lock.Lawful)
    (hdone : (Threads.unlockIn lock mode thread).2 = .done) (other : Thread) (kind : Mode) :
    tally (Threads.unlockIn lock mode thread).1.count thread mode other kind =
      lock.count other kind := by
  cases mode with
  | shared =>
    rw [Threads.unlockIn, unlockShared] at hdone ⊢
    split at hdone
    · cases hdone
    · rename_i hholds
      have hcleared : (lock.setShared thread 0).count other kind =
          if other = thread ∧ kind = .shared then 0 else lock.count other kind :=
        count_setShared 0 kind
      exact tally_of_lowered hholds hcleared
    · rename_i number hholds
      exact tally_of_lowered hholds (count_setShared (number + 1) kind)
  | exclusive =>
    rw [Threads.unlockIn, unlockExclusive] at hdone ⊢
    split at hdone
    · rename_i hheld
      have hcount := h.isHeldExclusively_iff.mp hheld
      have hentitled : lock.Entitled thread .exclusive := h.entitled_exclusive hcount
      obtain ⟨number, hholds⟩ : ∃ number, lock.exclusiveHolds thread = number + 1 :=
        Nat.exists_eq_add_one.mpr hcount
      rw [if_pos hheld, hholds]
      cases number with
      | zero => exact tally_of_lowered hholds (count_clearExclusive kind hentitled.writer)
      | succ number => exact tally_of_lowered hholds (count_setExclusive kind hentitled.writer)
    · cases hdone

theorem Lawful.unlockIn_done (h : lock.Lawful) (hheld : 0 < lock.count thread mode) :
    (Threads.unlockIn lock mode thread).2 = .done := by
  cases mode with
  | shared =>
    rw [Threads.unlockIn, unlockShared]
    split
    · rename_i hnone
      rw [count, hnone] at hheld
      cases hheld
    · rfl
    · rfl
  | exclusive =>
    rw [Threads.unlockIn, unlockExclusive, if_pos (h.isHeldExclusively_iff.mpr hheld)]
    split
    · rfl
    · rfl
    · rfl

theorem Lawful.count_unlockIn_of_ne (h : lock.Lawful) (hother : other ≠ thread) (kind : Mode) :
    (Threads.unlockIn lock mode thread).1.count other kind = lock.count other kind := by
  by_cases hdone : (Threads.unlockIn lock mode thread).2 = .done
  · rw [← h.tally_unlockIn hdone, tally_of_ne mode kind hother]
  · rw [unlockIn_of_refused hdone]

theorem queue_unlockIn (mode : Mode) :
    (Threads.unlockIn lock mode thread).1.queue = lock.queue := by
  cases mode with
  | shared =>
    rw [Threads.unlockIn, unlockShared]
    split
    · rfl
    · rfl
    · rfl
  | exclusive =>
    rw [Threads.unlockIn, unlockExclusive]
    split
    · split
      · rfl
      · rfl
      · rfl
    · rfl

/-! ### The holds of one thread -/

/-- Nobody holds the lock beside the thread that holds it exclusively. -/
theorem Lawful.eq_of_exclusive (h : lock.Lawful) (hother : 0 < lock.count other .exclusive)
    (hthread : 0 < lock.count thread mode) : other = thread := by
  cases mode with
  | shared =>
    have hentitled : lock.Entitled other .exclusive := h.entitled_exclusive hother
    exact (hentitled.readers rfl _ (mem_readers_of_sharedHolds hthread)).symm
  | exclusive =>
    have hentitled : lock.Entitled other .exclusive := h.entitled_exclusive hother
    obtain ⟨count, hwriter⟩ :=
      FairLock.isHeldExclusively_iff.mp (h.isHeldExclusively_iff.mpr hthread)
    exact (hentitled.writer thread count hwriter).symm

theorem holds_eq (lock : FairLock Thread) (thread : Thread) :
    lock.holds thread = ⟨lock.count thread .exclusive, lock.count thread .shared⟩ :=
  rfl

theorem Gains.pos (h : lock.Gains thread mode later) : 0 < later.count thread mode := by
  rw [h.count, tally, if_pos ⟨rfl, rfl⟩]
  exact Nat.succ_pos _

theorem Gains.lockShared_holds (h : lock.Gains thread .shared later) :
    (lock.holds thread).lockShared = later.holds thread := by
  rw [holds_eq later, h.count, h.count]
  simp [tally, holds_eq, Holds.lockShared]

theorem Gains.lockExclusive_holds (h : lock.Gains thread .exclusive later)
    (hrefuses : ¬lock.Refuses thread .exclusive) :
    (lock.holds thread).lockExclusive = .ok (later.holds thread) := by
  have hgranted : ¬((lock.holds thread).exclusive = 0 ∧ 0 < (lock.holds thread).shared) :=
    fun hrefused ↦ hrefuses ⟨rfl, hrefused⟩
  rw [holds_eq later, h.count, h.count, Holds.lockExclusive, if_neg hgranted]
  simp [tally, holds_eq]

theorem lockExclusive_holds_of_refuses (h : lock.Refuses thread mode) :
    (lock.holds thread).lockExclusive = .error .cannotUpgrade :=
  if_pos h.2

/-- Giving a hold back leaves a thread with what it held before. -/
theorem Gains.holds_unlockIn (h : lock.Gains thread mode later) :
    (Threads.unlockIn later mode thread).1.holds thread = lock.holds thread := by
  have hcount (kind : Mode) :
      (Threads.unlockIn later mode thread).1.count thread kind = lock.count thread kind := by
    have hsame := (h.lawful.tally_unlockIn (h.lawful.unlockIn_done h.pos) thread kind).trans
      (h.count thread kind)
    simp only [tally] at hsame
    split at hsame
    · exact Nat.succ.inj hsame
    · exact hsame
  rw [holds_eq, holds_eq, hcount, hcount]

end FairLock

end ClassWeaver.Lock
