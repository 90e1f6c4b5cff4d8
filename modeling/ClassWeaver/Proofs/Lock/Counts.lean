import ClassWeaver.Proofs.Lock.Calls

/-!
A contested lock counts exactly.

Whatever threads do, and in whatever order, the holds of a thread are what it got and has not given
back, and nobody holds anything beside the exclusive holder. A thread that waits holds nothing, and
has one ticket in the queue.
-/

set_option autoImplicit false
set_option relaxedAutoImplicit false

namespace ClassWeaver.Lock

variable {Thread : Type} [DecidableEq Thread]

namespace Contest

variable {contest later : Contest Thread} {thread : Thread} {mode : Mode} {demand : Demand}

/-! ### What steps consist of -/

/-- A thread that holds the lock gets one more hold. -/
def again (contest : Contest Thread) (thread : Thread) (mode : Mode) : Contest Thread :=
  { contest with lock := contest.lock.regain thread mode }.gain thread mode

/-- A thread puts its ticket into the queue. -/
def ask (contest : Contest Thread) (thread : Thread) (mode : Mode) : Contest Thread :=
  { contest with lock := contest.lock.enqueue (mode.ticket thread) }.queueUp thread mode

/-- A waiting thread gets the lock. -/
def serve (contest : Contest Thread) (thread : Thread) (demand : Demand) : Contest Thread :=
  { contest with lock := contest.lock.serve (demand.mode.ticket thread) }.getServed thread demand

/-- A waiting thread is no longer awake. -/
def doze (contest : Contest Thread) (thread : Thread) : Contest Thread :=
  { contest with lock := { contest.lock with awake := contest.lock.awake.erase thread } }

/-- The demand of a thread that asks now. -/
def nextDemand (contest : Contest Thread) (mode : Mode) : Demand :=
  ⟨mode, contest.demands.length⟩

@[simp] theorem blocked_ask (contest : Contest Thread) (thread : Thread) (mode : Mode) :
    (contest.ask thread mode).blocked =
      Function.update contest.blocked thread (some (contest.nextDemand mode)) := rfl

@[simp] theorem queue_ask (contest : Contest Thread) (thread : Thread) (mode : Mode) :
    (contest.ask thread mode).lock.queue = contest.lock.queue ++ [mode.ticket thread] := rfl

@[simp] theorem blocked_serve (contest : Contest Thread) (thread : Thread) (demand : Demand) :
    (contest.serve thread demand).blocked = Function.update contest.blocked thread none := rfl

@[simp] theorem queue_serve (contest : Contest Thread) (thread : Thread) (demand : Demand) :
    (contest.serve thread demand).lock.queue =
      contest.lock.queue.filter (·.thread ≠ thread) :=
  FairLock.queue_serve _

theorem enter_cases (h : contest.lock.Lawful) (thread : Thread) (mode : Mode) :
    contest.enter thread mode = contest ∨
    ((contest.lock.holds thread).reenters = true ∧ contest.lock.Entitled thread mode ∧
      contest.enter thread mode = contest.again thread mode) ∨
    ((contest.lock.holds thread).reenters = false ∧
      (contest.enter thread mode = contest.ask thread mode ∨
        (contest.ask thread mode).lock.canServe (mode.ticket thread) = true ∧
          contest.enter thread mode =
            (contest.ask thread mode).serve thread (contest.nextDemand mode))) := by
  have hlocks := h.locks thread mode
  rw [enter]
  generalize Threads.lockIn contest.lock mode thread = call at hlocks ⊢
  cases hlocks with
  | refused => exact .inl rfl
  | again hreenters hentitled =>
    exact .inr (.inl ⟨hreenters, hentitled, by simp [hreenters, again]⟩)
  | served hfirst hserve =>
    refine .inr (.inr ⟨hfirst, .inr ⟨hserve, ?_⟩⟩)
    dsimp only
    rw [if_neg (Bool.eq_false_iff.mp hfirst)]
    rfl
  | waits hfirst => exact .inr (.inr ⟨hfirst, .inl rfl⟩)

theorem leave_cases (contest : Contest Thread) (thread : Thread) (mode : Mode) :
    contest.leave thread mode = contest ∨
    ((Threads.unlockIn contest.lock mode thread).2 = .done ∧
      contest.leave thread mode =
        { contest with lock := (Threads.unlockIn contest.lock mode thread).1 }.giveBack
          thread mode) := by
  by_cases hdone : (Threads.unlockIn contest.lock mode thread).2 = .done
  · exact .inr ⟨hdone, if_pos hdone⟩
  · refine .inl ((if_neg hdone).trans ?_)
    exact congrArg (fun lock ↦ { contest with lock }) (FairLock.unlockIn_of_refused hdone)

/-! ### Contests in order -/

/-- A contest whose lock counts exactly. -/
structure Sound (contest : Contest Thread) : Prop where
  lawful : contest.lock.Lawful
  /-- The holds of a thread are those that it got and has not given back. -/
  accounted : ∀ thread mode, contest.lock.count thread mode + contest.released thread mode =
    contest.acquired thread mode
  /-- A thread that waits holds nothing. -/
  idle : ∀ thread demand, contest.blocked thread = some demand →
    ∀ mode, contest.lock.count thread mode = 0
  /-- A thread that waits has one ticket in the queue, of the mode that it waits for; the other
  threads have none. -/
  queued : ∀ thread, contest.lock.queue.filter (·.thread = thread) =
    (contest.blocked thread).toList.map (·.mode.ticket thread)

theorem sound_start : (start : Contest Thread).Sound where
  lawful := FairLock.lawful_unlocked
  accounted _ mode := by cases mode <;> rfl
  idle := nofun
  queued _ := rfl

theorem Sound.look_cases (h : contest.Sound) (hblocked : contest.blocked thread = some demand) :
    contest.look thread demand = contest.doze thread ∨
    ((contest.doze thread).lock.canServe (demand.mode.ticket thread) = true ∧
      contest.look thread demand = (contest.doze thread).serve thread demand) := by
  have hfind : contest.lock.queue.find? (·.thread = thread) =
      some (demand.mode.ticket thread) := by
    rw [← List.head?_filter, h.queued thread, hblocked]
    rfl
  rw [look, FairLock.look]
  simp only [hfind]
  by_cases hserve : (contest.doze thread).lock.canServe (demand.mode.ticket thread) = true
  · refine .inr ⟨hserve, ?_⟩
    rw [doze] at hserve
    simp only [hserve, if_true]
    rfl
  · refine .inl ?_
    rw [doze] at hserve
    simp only [hserve]
    rfl

theorem Sound.doze (h : contest.Sound) (thread : Thread) : (contest.doze thread).Sound where
  lawful := h.lawful.congr rfl rfl
  accounted := h.accounted
  idle := h.idle
  queued := h.queued

theorem Sound.again (h : contest.Sound) (hfree : contest.blocked thread = none)
    (hentitled : contest.lock.Entitled thread mode) : (contest.again thread mode).Sound := by
  have hgains := h.lawful.gains_regain hentitled
  refine ⟨hgains.lawful, fun other kind ↦ ?_, fun other demand hblocked kind ↦ ?_, fun other ↦ ?_⟩
  · change (contest.lock.regain thread mode).count other kind + contest.released other kind =
      tally contest.acquired thread mode other kind
    rw [hgains.count, tally_add]
    simp only [h.accounted]
  · have hother : other ≠ thread := by
      rintro rfl
      exact Option.some_ne_none demand (hblocked.symm.trans hfree)
    exact (hgains.count other kind).trans
      ((tally_of_ne mode kind hother).trans (h.idle other demand hblocked kind))
  · exact (congrArg _ (FairLock.queue_regain mode)).trans (h.queued other)

theorem Sound.ask (h : contest.Sound) (hfree : contest.blocked thread = none)
    (hholds : (contest.lock.holds thread).reenters = false) : (contest.ask thread mode).Sound where
  lawful := h.lawful.congr rfl rfl
  accounted := h.accounted
  idle other demand hblocked kind := by
    by_cases hother : other = thread
    · rw [hother]
      refine Nat.eq_zero_of_not_pos fun hheld ↦ ?_
      exact Bool.eq_false_iff.mp hholds (FairLock.reenters_iff.mpr ⟨kind, hheld⟩)
    · rw [blocked_ask, Function.update_of_ne hother] at hblocked
      exact h.idle other demand hblocked kind
  queued other := by
    rw [queue_ask, blocked_ask, List.filter_append, h.queued]
    by_cases hother : other = thread
    · rw [hother, Function.update_self, hfree]
      simp [Mode.ticket, nextDemand]
    · rw [Function.update_of_ne hother]
      simp [Mode.ticket, Ne.symm hother]

theorem Sound.serve (h : contest.Sound) (hblocked : contest.blocked thread = some demand)
    (hserve : contest.lock.canServe (demand.mode.ticket thread) = true) :
    (contest.serve thread demand).Sound := by
  have hgains := h.lawful.gains_serve hserve
  refine ⟨hgains.lawful, fun other kind ↦ ?_, fun other waiting hwaiting kind ↦ ?_,
    fun other ↦ ?_⟩
  · change (contest.lock.serve (demand.mode.ticket thread)).count other kind +
      contest.released other kind = tally contest.acquired thread demand.mode other kind
    rw [hgains.count, tally_add]
    simp only [h.accounted]
  · have hother : other ≠ thread := by
      rintro rfl
      simp at hwaiting
    rw [blocked_serve, Function.update_of_ne hother] at hwaiting
    exact (hgains.count other kind).trans
      ((tally_of_ne _ _ hother).trans (h.idle other waiting hwaiting kind))
  · rw [queue_serve, blocked_serve, List.filter_filter]
    by_cases hother : other = thread
    · rw [hother, Function.update_self]
      simp
    · rw [Function.update_of_ne hother, ← h.queued]
      refine List.filter_congr fun ticket _ ↦ ?_
      simp only [Bool.and_eq_left_iff_imp, decide_eq_true_iff]
      rintro rfl
      exact hother

theorem Sound.leave (h : contest.Sound) (hfree : contest.blocked thread = none) :
    (contest.leave thread mode).Sound := by
  rcases contest.leave_cases thread mode with hsame | ⟨hdone, hleave⟩
  · rwa [hsame]
  have htally := h.lawful.tally_unlockIn hdone
  rw [hleave]
  refine ⟨h.lawful.unlockIn thread mode, fun other kind ↦ ?_, fun other demand hblocked kind ↦ ?_,
    fun other ↦ ?_⟩
  · have haccounted := h.accounted other kind
    rw [← htally, ← add_tally] at haccounted
    exact haccounted
  · have hother : other ≠ thread := by
      rintro rfl
      exact Option.some_ne_none demand (hblocked.symm.trans hfree)
    rw [← h.idle other demand hblocked kind, ← htally]
    exact (tally_of_ne mode kind hother).symm
  · exact (congrArg _ (FairLock.queue_unlockIn mode)).trans (h.queued other)

theorem Sound.enter (h : contest.Sound) (hfree : contest.blocked thread = none) :
    (contest.enter thread mode).Sound := by
  rcases enter_cases h.lawful thread mode with
    hsame | ⟨-, hentitled, hagain⟩ | ⟨hholds, hask | ⟨hserve, hasked⟩⟩
  · rwa [hsame]
  · rw [hagain]
    exact h.again hfree hentitled
  · rw [hask]
    exact h.ask hfree hholds
  · rw [hasked]
    exact (h.ask hfree hholds).serve (Function.update_self ..) hserve

theorem Sound.look (h : contest.Sound) (hblocked : contest.blocked thread = some demand) :
    (contest.look thread demand).Sound := by
  rcases h.look_cases hblocked with hdoze | ⟨hserve, hserved⟩
  · rw [hdoze]
    exact h.doze thread
  · rw [hserved]
    exact (h.doze thread).serve hblocked hserve

theorem Reachable.sound (h : contest.Reachable) : contest.Sound := by
  induction h with
  | refl => exact sound_start
  | tail _ hstep ih =>
    cases hstep with
    | enter mode hfree => exact ih.enter hfree
    | look hblocked => exact ih.look hblocked
    | leave mode hfree => exact ih.leave hfree

theorem enter_of_refused {error : StateError}
    (h : (Threads.lockIn contest.lock mode thread).2 = .refused error) :
    contest.enter thread mode = contest := by
  have hlock := FairLock.lockIn_of_refused h
  have hcall : Threads.lockIn contest.lock mode thread = (contest.lock, .refused error) :=
    Prod.ext hlock h
  rw [enter, hcall]

theorem leave_of_refused {error : StateError}
    (h : (Threads.unlockIn contest.lock mode thread).2 = .refused error) :
    contest.leave thread mode = contest := by
  rcases contest.leave_cases thread mode with hsame | ⟨hdone, -⟩
  · exact hsame
  · rw [h] at hdone
    cases hdone

/-- However threads contend for a lock, its counts are exact. Nobody holds it beside the exclusive
holder; the holds of a thread are what it got less what it gave back; a waiting thread holds
nothing, and has the only ticket in the queue that is its own; and a refused call changes
nothing. -/
theorem exact_counts (h : contest.Reachable) :
    (∀ owner count, contest.lock.writer = some (owner, count) →
      1 ≤ count ∧ ∀ reader ∈ contest.lock.readers, reader.1 = owner) ∧
    (∀ reader ∈ contest.lock.readers, 1 ≤ reader.2) ∧
    (contest.lock.readers.map Prod.fst).Nodup ∧
    (∀ thread mode, contest.lock.count thread mode + contest.released thread mode =
      contest.acquired thread mode) ∧
    (∀ thread demand, contest.blocked thread = some demand →
      ∀ mode, contest.lock.count thread mode = 0) ∧
    (∀ thread, contest.lock.queue.filter (·.thread = thread) =
      (contest.blocked thread).toList.map (·.mode.ticket thread)) ∧
    ∀ thread mode error,
      ((Threads.lockIn contest.lock mode thread).2 = .refused error →
        contest.enter thread mode = contest) ∧
      ((Threads.unlockIn contest.lock mode thread).2 = .refused error →
        contest.leave thread mode = contest) :=
  ⟨h.sound.lawful.writer, h.sound.lawful.readers, h.sound.lawful.distinct, h.sound.accounted,
    h.sound.idle, h.sound.queued, fun _ _ _ ↦ ⟨enter_of_refused, leave_of_refused⟩⟩

/-- One thread holds the lock in both modes, and another one waits. -/
def contested : Contest Bool :=
  ((start.enter true .exclusive).enter true .shared).enter false .shared

theorem reachable_contested : contested.Reachable :=
  .tail (.tail (.tail .refl (.enter .exclusive rfl)) (.enter .shared rfl)) (.enter .shared rfl)

theorem exact_counts_contested :
    contested.Reachable ∧ contested.lock.writer = some (true, 1) ∧
      contested.lock.readers = [(true, 1)] ∧ contested.blocked false = some ⟨.shared, 1⟩ ∧
      (∀ reader ∈ contested.lock.readers, reader.1 = true) ∧
      contested.lock.count true .shared + contested.released true .shared =
        contested.acquired true .shared ∧
      contested.lock.count false .shared = 0 ∧
      contested.lock.queue.filter (·.thread = false) = [⟨false, false⟩] ∧
      contested.leave false .shared = contested := by
  have hwriter : contested.lock.writer = some (true, 1) := by decide
  have hblocked : contested.blocked false = some ⟨.shared, 1⟩ := by decide
  obtain ⟨hexclusive, -, -, haccounted, hidle, hqueued, hrefused⟩ :=
    exact_counts reachable_contested
  refine ⟨reachable_contested, hwriter, by decide, hblocked, (hexclusive _ _ hwriter).2,
    haccounted true .shared, hidle false _ hblocked .shared, ?_, ?_⟩
  · rw [hqueued, hblocked]
    rfl
  · exact (hrefused false .shared .notHeldShared).2 (by decide)

end Contest

end ClassWeaver.Lock
