import ClassWeaver.Proofs.Lock.Counts
import Mathlib.Data.List.Basic

/-!
A contested lock serves in turn.

The queue holds the demands that were not served yet, in the order in which they came. So a demand
that is served has no other one in front of it that it is at odds with: readers do not overtake a
writer, and a writer overtakes nobody. Threads that hold the lock already do not queue.
-/

set_option autoImplicit false
set_option relaxedAutoImplicit false

namespace ClassWeaver.Lock

variable {Thread : Type}

theorem Mode.ticket_inj {mode kind : Mode} {thread other : Thread} :
    mode.ticket thread = kind.ticket other ↔ mode = kind ∧ thread = other := by
  cases mode <;> cases kind <;> simp [ticket]

theorem exists_eq_ticket (ticket : Ticket Thread) :
    ∃ mode : Mode, ticket = mode.ticket ticket.thread := by
  obtain ⟨thread, _ | _⟩ := ticket
  · exact ⟨.shared, rfl⟩
  · exact ⟨.exclusive, rfl⟩

namespace Contest

variable {contest later : Contest Thread} {thread : Thread} {mode : Mode} {demand : Demand}
  {number : Nat}

/-! ### Demands that were not served yet -/

/-- The numbers of the demands that were not served yet. -/
def pending (contest : Contest Thread) : List Nat :=
  (List.range contest.demands.length).filter (· ∉ contest.served)

theorem mem_pending : number ∈ contest.pending ↔
    number < contest.demands.length ∧ number ∉ contest.served := by
  simp [pending]

/-- Two demands that cannot be served at the same time. -/
def AtOdds (contest : Contest Thread) (first second : Nat) : Prop :=
  ∃ ahead behind, contest.demands[first]? = some ahead ∧
    contest.demands[second]? = some behind ∧ (ahead.exclusive = true ∨ behind.exclusive = true)

/-- A contest in which demands are served in turn. -/
structure Orderly (contest : Contest Thread) : Prop where
  /-- The queue holds the tickets of the demands that were not served yet. -/
  queue : contest.lock.queue = contest.pending.filterMap (contest.demands[·]?)
  /-- A thread waits for its demand that was not served yet. -/
  blocked_iff : ∀ thread demand, contest.blocked thread = some demand ↔
    demand.number ∉ contest.served ∧
      contest.demands[demand.number]? = some (demand.mode.ticket thread)
  known : ∀ number ∈ contest.served, number < contest.demands.length
  once : contest.served.Nodup
  /-- A demand is served after all earlier ones that it is at odds with. -/
  inTurn : ∀ earlier second rest, contest.served = earlier ++ second :: rest →
    ∀ first < second, contest.AtOdds first second → first ∈ earlier

theorem orderly_start : (start : Contest Thread).Orderly where
  queue := rfl
  blocked_iff thread demand := by simp [start]
  known := nofun
  once := List.nodup_nil
  inTurn earlier second rest h := by simp [start] at h

/-- Steps that neither queue up nor serve keep the order. -/
theorem Orderly.congr (h : contest.Orderly) (hqueue : later.lock.queue = contest.lock.queue)
    (hdemands : later.demands = contest.demands) (hserved : later.served = contest.served)
    (hblocked : later.blocked = contest.blocked) : later.Orderly := by
  obtain ⟨lock, demands, served, blocked, acquired, released⟩ := later
  obtain rfl : demands = contest.demands := hdemands
  obtain rfl : served = contest.served := hserved
  obtain rfl : blocked = contest.blocked := hblocked
  exact ⟨hqueue.trans h.queue, h.blocked_iff, h.known, h.once, h.inTurn⟩

/-- A demand that was not served yet is what its thread waits for. -/
theorem Orderly.exists_blocked (h : contest.Orderly) (hnumber : number ∈ contest.pending) :
    ∃ owner mode, contest.demands[number]? = some (Mode.ticket mode owner) ∧
      contest.blocked owner = some ⟨mode, number⟩ := by
  obtain ⟨hlt, hserved⟩ := mem_pending.mp hnumber
  obtain ⟨mode, hticket⟩ := exists_eq_ticket contest.demands[number]
  have hdemand : contest.demands[number]? = some (mode.ticket contest.demands[number].thread) := by
    rw [← hticket]
    exact List.getElem?_eq_getElem hlt
  exact ⟨_, mode, hdemand, (h.blocked_iff _ ⟨mode, number⟩).mpr ⟨hserved, hdemand⟩⟩

variable [DecidableEq Thread]

/-! ### Queueing up -/

theorem getElem?_demands_ask (contest : Contest Thread) (thread : Thread) (mode : Mode)
    (number : Nat) : (contest.ask thread mode).demands[number]? =
      if number = contest.demands.length then some (mode.ticket thread)
      else contest.demands[number]? := by
  change (contest.demands ++ [mode.ticket thread])[number]? = _
  split
  · rename_i hlast
    rw [hlast, List.getElem?_concat_length]
  · rename_i hother
    by_cases hlt : number < contest.demands.length
    · exact List.getElem?_append_left hlt
    · rw [List.getElem?_eq_none (by simp; omega), List.getElem?_eq_none (by omega)]

theorem Orderly.pending_ask (h : contest.Orderly) (thread : Thread) (mode : Mode) :
    (contest.ask thread mode).pending = contest.pending ++ [contest.demands.length] := by
  have hnew : contest.demands.length ∉ contest.served :=
    fun hserved ↦ Nat.lt_irrefl _ (h.known _ hserved)
  change (List.range (contest.demands ++ [mode.ticket thread]).length).filter
    (· ∉ contest.served) = _
  rw [List.length_append, List.length_singleton, List.range_succ, List.filter_append, pending]
  simp [hnew]

theorem Orderly.ask (h : contest.Orderly) (hfree : contest.blocked thread = none) :
    (contest.ask thread mode).Orderly where
  queue := by
    rw [queue_ask, h.pending_ask, List.filterMap_append, h.queue]
    congr 1
    · refine List.filterMap_congr fun number hnumber ↦ ?_
      rw [getElem?_demands_ask, if_neg (Nat.ne_of_lt (mem_pending.mp hnumber).1)]
    · simp [getElem?_demands_ask]
  blocked_iff other demand := by
    rw [blocked_ask, getElem?_demands_ask]
    change _ ↔ demand.number ∉ contest.served ∧ _
    by_cases hother : other = thread
    · rw [hother, Function.update_self]
      split
      · rename_i hlast
        have hnew : demand.number ∉ contest.served :=
          fun hserved ↦ Nat.lt_irrefl _ (hlast ▸ h.known _ hserved)
        rw [Option.some.injEq, Option.some.injEq, Mode.ticket_inj]
        obtain ⟨kind, number⟩ := demand
        obtain rfl : number = contest.demands.length := hlast
        simp [hnew, nextDemand]
      · rename_i hlast
        rw [← h.blocked_iff thread demand, hfree]
        simp only [Option.some.injEq, reduceCtorEq, iff_false]
        exact fun hnext ↦ hlast (hnext ▸ rfl)
    · rw [Function.update_of_ne hother, h.blocked_iff]
      split
      · rename_i hlast
        rw [hlast, List.getElem?_eq_none (Nat.le_refl _), Option.some.injEq, Mode.ticket_inj]
        simp [Ne.symm hother]
      · rfl
  known number hnumber := by
    have hlt := h.known number hnumber
    exact Nat.lt_trans hlt (by simp [Contest.ask, queueUp])
  once := h.once
  inTurn earlier second rest hsplit first hfirst hodds := by
    have hsecond : second < contest.demands.length :=
      h.known second (hsplit ▸ List.mem_append_right _ (List.mem_cons_self ..))
    refine h.inTurn earlier second rest hsplit first hfirst ?_
    rwa [AtOdds, getElem?_demands_ask, getElem?_demands_ask, if_neg (by omega),
      if_neg (by omega)] at hodds

/-! ### Being served -/

theorem pending_serve (contest : Contest Thread) (thread : Thread) (demand : Demand) :
    (contest.serve thread demand).pending = contest.pending.filter (· ≠ demand.number) := by
  change (List.range contest.demands.length).filter (· ∉ contest.served ++ [demand.number]) = _
  rw [pending, List.filter_filter]
  refine List.filter_congr fun number _ ↦ ?_
  simp [and_comm]

/-- The tickets of earlier demands are in front of a thread. -/
theorem Orderly.mem_takeWhile (h : contest.Orderly)
    (hblocked : contest.blocked thread = some demand) {first : Nat}
    (hpending : first ∈ contest.pending) (hfirst : first < demand.number) {ahead : Ticket Thread}
    (hahead : contest.demands[first]? = some ahead) :
    ahead ∈ contest.lock.queue.takeWhile (·.thread ≠ thread) := by
  obtain ⟨hserved, hdemand⟩ := (h.blocked_iff thread demand).mp hblocked
  have hmem : demand.number ∈ contest.pending :=
    mem_pending.mpr ⟨(List.getElem?_eq_some_iff.mp hdemand).1, hserved⟩
  obtain ⟨front, rest, hsplit⟩ := List.append_of_mem hmem
  have hsorted : contest.pending.Pairwise (· < ·) := List.pairwise_lt_range.filter _
  rw [hsplit, List.pairwise_append, List.pairwise_cons] at hsorted
  have hfront : first ∈ front := by
    rw [hsplit, List.mem_append, List.mem_cons] at hpending
    rcases hpending with hfront | hself | hrest
    · exact hfront
    · exact absurd hself (Nat.ne_of_lt hfirst)
    · exact absurd (hsorted.2.1.1 first hrest) (Nat.lt_asymm hfirst)
  have howners : ∀ ticket ∈ front.filterMap (contest.demands[·]?), ticket.thread ≠ thread := by
    intro ticket hticket hsame
    obtain ⟨number, hnumber, hticket⟩ := List.mem_filterMap.mp hticket
    obtain ⟨owner, mode, hother, hwaiting⟩ :=
      h.exists_blocked (hsplit ▸ List.mem_append_left _ hnumber)
    obtain rfl : ticket = mode.ticket owner := Option.some.inj (hticket.symm.trans hother)
    obtain rfl : owner = thread := hsame
    obtain rfl : ⟨mode, number⟩ = demand := Option.some.inj (hwaiting.symm.trans hblocked)
    exact Nat.lt_irrefl _ (hsorted.2.2 number hnumber _ (List.mem_cons_self ..))
  rw [h.queue, hsplit, List.filterMap_append, List.takeWhile_append_of_pos (by simpa using howners)]
  exact List.mem_append_left _ (List.mem_filterMap.mpr ⟨first, hfront, hahead⟩)

theorem Orderly.served_of_canServe (h : contest.Orderly)
    (hblocked : contest.blocked thread = some demand)
    (hserve : contest.lock.canServe (demand.mode.ticket thread) = true) {first : Nat}
    (hfirst : first < demand.number) (hodds : contest.AtOdds first demand.number) :
    first ∈ contest.served := by
  obtain ⟨ahead, behind, hahead, hbehind, hexclusive⟩ := hodds
  obtain rfl : behind = demand.mode.ticket thread :=
    Option.some.inj (hbehind.symm.trans ((h.blocked_iff thread demand).mp hblocked).2)
  by_contra hserved
  have hpending : first ∈ contest.pending :=
    mem_pending.mpr ⟨(List.getElem?_eq_some_iff.mp hahead).1, hserved⟩
  have hmem := h.mem_takeWhile hblocked hpending hfirst hahead
  rw [FairLock.canServe] at hserve
  split at hserve
  · -- A writer is in front, so that nobody is ahead of it.
    rw [Bool.and_eq_true, beq_iff_eq] at hserve
    obtain ⟨-, hhead⟩ := hserve
    cases hqueue : contest.lock.queue with
    | nil => simp [hqueue] at hhead
    | cons front rest =>
      rw [hqueue, List.head?_cons, Option.map_some, Option.some.injEq] at hhead
      rw [hqueue, List.takeWhile_cons_of_neg (by simp [hhead, Mode.ticket])] at hmem
      exact List.not_mem_nil hmem
  · rename_i hshared
    rw [Bool.and_eq_true, Bool.not_eq_true', FairLock.writerAhead, List.any_eq_false] at hserve
    exact hexclusive.elim (hserve.2 ahead hmem) hshared

theorem Orderly.queue_serve (h : contest.Orderly)
    (hblocked : contest.blocked thread = some demand) :
    contest.lock.queue.filter (·.thread ≠ thread) =
      (contest.pending.filter (· ≠ demand.number)).filterMap (contest.demands[·]?) := by
  rw [h.queue, List.filter_filterMap, List.filterMap_filter]
  refine List.filterMap_congr fun number hnumber ↦ ?_
  obtain ⟨owner, mode, hdemand, hwaiting⟩ := h.exists_blocked hnumber
  have hself : owner = thread ↔ number = demand.number := by
    constructor
    · rintro rfl
      exact congrArg Demand.number (Option.some.inj (hwaiting.symm.trans hblocked))
    · rintro rfl
      have hsame := hdemand.symm.trans ((h.blocked_iff thread demand).mp hblocked).2
      exact (Mode.ticket_inj.mp (Option.some.inj hsame)).2
  rw [hdemand]
  by_cases hnumber : number = demand.number
  · simp [hnumber, Mode.ticket, hself.mpr hnumber]
  · simp [hnumber, Mode.ticket, mt hself.mp hnumber]

theorem Orderly.serve (h : contest.Orderly) (hblocked : contest.blocked thread = some demand)
    (hserve : contest.lock.canServe (demand.mode.ticket thread) = true) :
    (contest.serve thread demand).Orderly := by
  obtain ⟨hnew, hdemand⟩ := (h.blocked_iff thread demand).mp hblocked
  have hserved : (contest.serve thread demand).served = contest.served ++ [demand.number] := rfl
  refine ⟨?_, fun other waiting ↦ ?_, fun number hnumber ↦ ?_, ?_, ?_⟩
  · rw [Contest.queue_serve, pending_serve]
    exact h.queue_serve hblocked
  · change _ ↔ _ ∧ contest.demands[waiting.number]? = _
    rw [blocked_serve, hserved, List.mem_append, List.mem_singleton, not_or, and_right_comm,
      ← h.blocked_iff]
    by_cases hother : other = thread
    · rw [hother, Function.update_self, hblocked]
      simp only [reduceCtorEq, Option.some.injEq, false_iff, not_and, not_not]
      exact fun hsame ↦ congrArg Demand.number hsame.symm
    · rw [Function.update_of_ne hother, iff_self_and]
      intro hwaiting hsame
      have hticket := ((h.blocked_iff other waiting).mp hwaiting).2
      rw [hsame, hdemand, Option.some.injEq, Mode.ticket_inj] at hticket
      exact hother hticket.2.symm
  · rw [hserved, List.mem_append, List.mem_singleton] at hnumber
    rcases hnumber with hold | rfl
    · exact h.known number hold
    · exact (List.getElem?_eq_some_iff.mp hdemand).1
  · rw [hserved]
    refine List.nodup_append.mpr ⟨h.once, by simp, fun number hnumber last hlast ↦ ?_⟩
    rintro rfl
    exact hnew (List.mem_singleton.mp hlast ▸ hnumber)
  · rw [hserved]
    intro earlier second rest hsplit first hfirst hodds
    rcases List.eq_nil_or_concat rest with rfl | ⟨others, last, rfl⟩
    · obtain ⟨rfl, hlast⟩ := List.append_inj' hsplit rfl
      obtain rfl := List.singleton_inj.mp hlast
      exact h.served_of_canServe hblocked hserve hfirst hodds
    · rw [List.concat_eq_append, ← List.cons_append, ← List.append_assoc] at hsplit
      exact h.inTurn earlier second others (List.append_inj' hsplit rfl).1 first hfirst hodds

/-! ### Whole runs -/

theorem Orderly.enter (h : contest.Orderly) (hlawful : contest.lock.Lawful)
    (hfree : contest.blocked thread = none) : (contest.enter thread mode).Orderly := by
  rcases enter_cases hlawful thread mode with
    hsame | ⟨-, -, hagain⟩ | ⟨-, hask | ⟨hserve, hasked⟩⟩
  · rwa [hsame]
  · rw [hagain]
    exact h.congr (FairLock.queue_regain mode) rfl rfl rfl
  · rw [hask]
    exact h.ask hfree
  · rw [hasked]
    exact (h.ask hfree).serve (Function.update_self ..) hserve

theorem Orderly.look (h : contest.Orderly) (hsound : contest.Sound)
    (hblocked : contest.blocked thread = some demand) : (contest.look thread demand).Orderly := by
  have hdozing : (contest.doze thread).Orderly := h.congr rfl rfl rfl rfl
  rcases hsound.look_cases hblocked with hdoze | ⟨hserve, hserved⟩
  · rwa [hdoze]
  · rw [hserved]
    exact hdozing.serve hblocked hserve

theorem Orderly.leave (h : contest.Orderly) : (contest.leave thread mode).Orderly := by
  rcases contest.leave_cases thread mode with hsame | ⟨-, hleave⟩
  · rwa [hsame]
  · rw [hleave]
    exact h.congr (FairLock.queue_unlockIn mode) rfl rfl rfl

theorem Reachable.orderly (h : contest.Reachable) : contest.Orderly := by
  induction h with
  | refl => exact orderly_start
  | tail hsteps hstep ih =>
    have hsound := Reachable.sound hsteps
    cases hstep with
    | enter mode hfree => exact ih.enter hsound.lawful hfree
    | look hblocked => exact ih.look hsound hblocked
    | leave mode hfree => exact ih.leave

/-- What a step serves: nobody, so that only a thread that holds the lock already may have got
it, or one queued demand, whose thread gets the lock. -/
inductive Serves (contest later : Contest Thread) : Prop
  | nobody (hserved : later.served = contest.served)
    (hheld : ∀ thread mode, later.acquired thread mode ≠ contest.acquired thread mode →
      (contest.lock.holds thread).reenters = true)
  | one (thread : Thread) (demand : Demand) (hnew : demand.number ∉ contest.served)
    (hdemand : later.demands[demand.number]? = some (demand.mode.ticket thread))
    (hserved : later.served = contest.served ++ [demand.number])
    (hacquired : later.acquired = tally contest.acquired thread demand.mode)

/-- A step that leaves the records of served demands and of acquisitions alone. -/
theorem Serves.of_eq (hserved : later.served = contest.served)
    (hacquired : later.acquired = contest.acquired) : contest.Serves later :=
  .nobody hserved fun thread mode hne ↦ absurd (congrFun₂ hacquired thread mode) hne

theorem serves_of_step (h : contest.Reachable) (hstep : Step contest later) :
    contest.Serves later := by
  cases hstep with
  | @enter thread mode hfree =>
    rcases enter_cases h.sound.lawful thread mode with
      hsame | ⟨hreenters, -, hagain⟩ | ⟨-, hask | ⟨hserve, hasked⟩⟩
    · rw [hsame]
      exact .of_eq rfl rfl
    · rw [hagain]
      refine .nobody rfl fun other kind hne ↦ ?_
      by_cases hother : other = thread
      · rwa [hother]
      · exact absurd (tally_of_ne mode kind hother) hne
    · rw [hask]
      exact .of_eq rfl rfl
    · rw [hasked]
      have hnew : (contest.nextDemand mode).number ∉ contest.served :=
        fun hserved ↦ Nat.lt_irrefl _ (h.orderly.known _ hserved)
      exact .one thread (contest.nextDemand mode) hnew List.getElem?_concat_length rfl rfl
  | @look thread demand hblocked =>
    rcases h.sound.look_cases hblocked with hdoze | ⟨-, hserved⟩
    · rw [hdoze]
      exact .of_eq rfl rfl
    · rw [hserved]
      obtain ⟨hnew, hdemand⟩ := (h.orderly.blocked_iff thread demand).mp hblocked
      exact .one thread demand hnew hdemand rfl rfl
  | @leave thread mode hfree =>
    rcases contest.leave_cases thread mode with hsame | ⟨-, hleave⟩
    · rw [hsame]
      exact .of_eq rfl rfl
    · rw [hleave]
      exact .of_eq rfl rfl

/-- However threads contend for a lock, and whenever the waiting ones look at it, of two queued
demands of which one is exclusive, the later is not served before the earlier; and only threads
that hold the lock already get it without being served. -/
theorem served_in_turn (h : contest.Reachable) :
    contest.lock.queue = contest.pending.filterMap (contest.demands[·]?) ∧
    contest.served.Nodup ∧
    (∀ earlier second rest, contest.served = earlier ++ second :: rest →
      ∀ first < second, contest.AtOdds first second → first ∈ earlier) ∧
    ∀ later, Step contest later → contest.Serves later :=
  ⟨h.orderly.queue, h.orderly.once, h.orderly.inTurn, fun _ ↦ serves_of_step h⟩

/-- The exclusive holder is gone, and the reader that waited for it has looked. -/
def handedOver : Contest Bool :=
  (contested.leave true .exclusive).look false ⟨.shared, 1⟩

theorem reachable_handedOver : handedOver.Reachable :=
  .tail (.tail reachable_contested (.leave .exclusive rfl)) (.look rfl)

theorem served_in_turn_handedOver :
    handedOver.Reachable ∧ handedOver.served = [0] ++ 1 :: [] ∧ handedOver.AtOdds 0 1 ∧
      0 ∈ [0] ∧ handedOver.lock.queue = [] ∧
      handedOver.Serves (handedOver.enter true .shared) := by
  have hserved : handedOver.served = [0] ++ 1 :: [] := by decide
  have hodds : handedOver.AtOdds 0 1 := ⟨⟨true, true⟩, ⟨false, false⟩, by decide⟩
  obtain ⟨hqueue, -, hturn, hserves⟩ := served_in_turn reachable_handedOver
  exact ⟨reachable_handedOver, hserved, hodds, hturn [0] 1 [] hserved 0 Nat.one_pos hodds,
    hqueue.trans (by decide), hserves _ (.enter .shared rfl)⟩

end Contest

end ClassWeaver.Lock
