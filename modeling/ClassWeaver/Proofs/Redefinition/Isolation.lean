import ClassWeaver.Proofs.Lock.Calls
import ClassWeaver.Proofs.Redefinition.Interleaving
import ClassWeaver.Redefinition.Rehearsal

/-!
No thread gets between a retransformation and the classes that it reads.

While a thread gathers definitions no other thread fetches, rewrites or gathers (`Locked.alone`),
so that every class that it reads stays as it was read. What `Sound` says of a scene therefore
outlasts every step.
-/

set_option autoImplicit false
set_option relaxedAutoImplicit false

namespace ClassWeaver.Redefinition

open Search Workspace Lock

variable {Thread World Loader Class : Type}
  {access : Access World Loader} {instrumentation : Instrumentation World Loader Class}

/-! ### The lock and the tasks -/

/-- A job is begun in the mode in which the lock was taken for it. -/
theorem Job.mode_of_first {job : Job Loader Class} {mode : Mode}
    (h : job.first.mode? = some mode) : mode = job.mode := by
  cases job with
  | hold _ => cases h
  | transform _ => exact (Option.some.inj h).symm
  | retransform _ => exact (Option.some.inj h).symm

theorem Job.first_ne_waiting (job other : Job Loader Class) : job.first ≠ .waiting other := by
  cases job with
  | hold _ => exact nofun
  | transform _ => exact nofun
  | retransform _ => exact nofun

theorem Task.ne_waiting_of_mode {task : Task Loader Class} {mode : Mode}
    (h : task.mode? = some mode) (job : Job Loader Class) : task ≠ .waiting job := by
  rintro rfl
  cases h

variable [DecidableEq Thread]

/-- The lock agrees with what the threads are about to do. -/
structure Locked (lock : FairLock Thread) (task : Thread → Task Loader Class) : Prop where
  lawful : lock.Lawful
  holds : ∀ thread mode, (task thread).mode? = some mode → 0 < lock.count thread mode
  /-- A thread that waits holds nothing. -/
  waiting : ∀ thread job, task thread = .waiting job → ∀ mode, lock.count thread mode = 0
  queued : ∀ ticket ∈ lock.queue, ∃ job, task ticket.thread = .waiting job ∧
    ticket = job.mode.ticket ticket.thread

namespace Locked

variable {lock later : FairLock Thread} {task : Thread → Task Loader Class}
  {thread other : Thread} {next : Task Loader Class} {mode : Mode} {job : Job Loader Class}

/-- Nobody else is in a task for which the lock is taken while a thread needs it exclusively. -/
theorem alone (h : Locked lock task) (hthread : (task thread).mode? = some mode)
    (hother : (task other).mode? = some .exclusive) : other = thread :=
  h.lawful.eq_of_exclusive (h.holds other .exclusive hother) (h.holds thread mode hthread)

theorem ne_of_queued (h : Locked lock task) {ticket : Ticket Thread} (hmem : ticket ∈ lock.queue)
    (hthread : ∀ job, task thread ≠ .waiting job) : ticket.thread ≠ thread := by
  rintro rfl
  obtain ⟨job, hjob, -⟩ := h.queued ticket hmem
  exact hthread job hjob

/-- One thread makes a call and goes on with another task. -/
theorem move (h : Locked lock task) (hlawful : later.Lawful)
    (hothers : ∀ other, other ≠ thread → ∀ kind, later.count other kind = lock.count other kind)
    (hholds : ∀ mode, next.mode? = some mode → 0 < later.count thread mode)
    (hwaiting : ∀ job, next = .waiting job → ∀ mode, later.count thread mode = 0)
    (hqueue : ∀ ticket ∈ later.queue, (ticket ∈ lock.queue ∧ ticket.thread ≠ thread) ∨
      ∃ job, next = .waiting job ∧ ticket = job.mode.ticket thread) :
    Locked later (Function.update task thread next) where
  lawful := hlawful
  holds other mode hmode := by
    by_cases hother : other = thread
    · subst hother
      rw [Function.update_self] at hmode
      exact hholds mode hmode
    · rw [Function.update_of_ne hother] at hmode
      rw [hothers other hother]
      exact h.holds other mode hmode
  waiting other job hjob mode := by
    by_cases hother : other = thread
    · subst hother
      rw [Function.update_self] at hjob
      exact hwaiting job hjob mode
    · rw [Function.update_of_ne hother] at hjob
      rw [hothers other hother]
      exact h.waiting other job hjob mode
  queued ticket hmem := by
    rcases hqueue ticket hmem with ⟨hold, hother⟩ | ⟨job, hnext, rfl⟩
    · rw [Function.update_of_ne hother]
      exact h.queued ticket hold
    · exact ⟨job, (Function.update_self ..).trans hnext, rfl⟩

/-- One thread gets the lock and begins with its job. -/
theorem gain (h : Locked lock task) (hgains : lock.Gains thread job.mode later)
    (hqueue : ∀ ticket ∈ later.queue, ticket ∈ lock.queue ∧ ticket.thread ≠ thread) :
    Locked later (Function.update task thread job.first) := by
  refine h.move hgains.lawful (fun other hother kind ↦ ?_) (fun mode hmode ↦ ?_)
    (fun other hwaiting ↦ absurd hwaiting (job.first_ne_waiting other)) fun ticket hmem ↦
      .inl (hqueue ticket hmem)
  · rw [hgains.count, tally_of_ne _ _ hother]
  · rw [Job.mode_of_first hmode]
    exact hgains.pos

/-- A thread keeps the lock and goes on with a task for which it needs no more than before. -/
theorem keep (h : Locked lock task) (hthread : ∀ job, task thread ≠ .waiting job)
    (hmode : ∀ mode, next.mode? = some mode → (task thread).mode? = some mode)
    (hnext : ∀ job, next ≠ .waiting job) :
    Locked lock (Function.update task thread next) :=
  h.move h.lawful (fun _ _ _ ↦ rfl) (fun mode hneeded ↦ h.holds thread mode (hmode mode hneeded))
    (fun job hwaiting ↦ absurd hwaiting (hnext job))
    fun _ hmem ↦ .inl ⟨hmem, h.ne_of_queued hmem hthread⟩

theorem enter (h : Locked lock task) (hidle : task thread = .idle) (job : Job Loader Class) :
    Locked (Threads.lockIn lock job.mode thread).1 (Function.update task thread
      (job.after (Threads.lockIn lock job.mode thread).2)) := by
  have hthread (job : Job Loader Class) : task thread ≠ .waiting job := by
    rw [hidle]
    exact nofun
  cases houtcome : (Threads.lockIn lock job.mode thread).2 with
  | done =>
    refine h.gain (h.lawful.gains_lockIn houtcome) fun ticket hmem ↦ ?_
    rcases h.lawful.mem_queue_lockIn hmem with hold | ⟨hwaiting, -⟩
    · exact ⟨hold, h.ne_of_queued hold hthread⟩
    · cases houtcome.symm.trans hwaiting
  | waiting =>
    obtain ⟨hholds, hlock⟩ := h.lawful.lockIn_of_waiting houtcome
    rw [hlock]
    refine h.move (h.lawful.enqueue _) (fun _ _ _ ↦ rfl) nofun (fun _ _ mode ↦ ?_)
      fun ticket hmem ↦ ?_
    · exact Nat.eq_zero_of_not_pos fun hheld ↦
        Bool.eq_false_iff.mp hholds (FairLock.reenters_iff.mpr ⟨mode, hheld⟩)
    · rcases List.mem_append.mp hmem with hold | hnew
      · exact .inl ⟨hold, h.ne_of_queued hold hthread⟩
      · exact .inr ⟨job, rfl, List.mem_singleton.mp hnew⟩
  | refused error =>
    rw [FairLock.lockIn_of_refused houtcome]
    exact h.keep hthread nofun nofun

/-- A thread that is served gets what it waited for. -/
theorem gains_look (h : Locked lock task) (hwaiting : task thread = .waiting job)
    (hserved : (lock.look thread).2 = true) :
    lock.Gains thread job.mode (lock.look thread).1 := by
  rcases h.lawful.look_cases thread with hdozing | ⟨mode, hmem, -, hgains, -⟩
  · rw [hdozing] at hserved
    cases hserved
  · obtain ⟨own, hown, hticket⟩ := h.queued _ hmem
    obtain rfl : own = job := Task.waiting.inj (hown.symm.trans hwaiting)
    have hmode : mode = own.mode := by
      have hexclusive := congrArg Ticket.exclusive hticket
      cases mode <;> cases hjob : own.mode <;> simp_all [Mode.ticket]
    rwa [← hmode]

theorem look (h : Locked lock task) (hwaiting : task thread = .waiting job) :
    Locked (lock.look thread).1 (Function.update task thread
      (job.after (if (lock.look thread).2 then .done else .waiting))) := by
  rcases h.lawful.look_cases thread with hdozing | ⟨-, -, hserved, -, hqueue⟩
  · rw [hdozing]
    refine h.move (h.lawful.congr rfl rfl) (fun _ _ _ ↦ rfl) nofun
      (fun _ _ ↦ h.waiting thread job hwaiting) fun ticket hmem ↦ ?_
    by_cases hthread : ticket.thread = thread
    · obtain ⟨own, hown, hticket⟩ := h.queued ticket hmem
      rw [hthread] at hown hticket
      obtain rfl : own = job := Task.waiting.inj (hown.symm.trans hwaiting)
      exact .inr ⟨own, rfl, hticket⟩
    · exact .inl ⟨hmem, hthread⟩
  · rw [if_pos hserved]
    refine h.gain (h.gains_look hwaiting hserved) fun ticket hmem ↦ ?_
    rw [hqueue] at hmem
    obtain ⟨hold, hother⟩ := List.mem_filter.mp hmem
    exact ⟨hold, of_decide_eq_true hother⟩

/-- A thread gives a hold back and goes on with a task for which it does not need the lock. -/
theorem leave (h : Locked lock task) (hthread : ∀ job, task thread ≠ .waiting job) (mode : Mode)
    (hmode : next.mode? = none) (hnext : ∀ job, next ≠ .waiting job) :
    Locked (Threads.unlockIn lock mode thread).1 (Function.update task thread next) := by
  refine h.move (h.lawful.unlockIn thread mode)
    (fun other hother ↦ h.lawful.count_unlockIn_of_ne hother) (fun mode hneeded ↦ ?_)
    (fun job hwaiting ↦ absurd hwaiting (hnext job)) fun ticket hmem ↦ ?_
  · cases hmode.symm.trans hneeded
  · rw [FairLock.queue_unlockIn] at hmem
    exact .inl ⟨hmem, h.ne_of_queued hmem hthread⟩

end Locked

/-! ### Histories -/

/-- A gathering for `classes` left every class of the pool as it was read through the search path
that was recorded when the workspace was like `before`, and its definitions carry the bytes that
their classes are read from. -/
structure Gathered (access : Access World Loader)
    (instrumentation : Instrumentation World Loader Class) (classes : List Class)
    (before : Workspace Loader) (outcome : Except Failure (List (Class × Bytes)))
    (after : Workspace Loader) (world : World) : Prop where
  untouched : Untouched access (access.contents world) (before.registry.renew true) after
  faithful : ∀ batch, outcome = .ok batch → batch.map Prod.fst = classes ∧
    ∀ entry ∈ batch, Faithful instrumentation (access.contents world) after entry

/-- What there is to an event with the `earlier` ones behind it: a gathering comes right after a
renewal and reads what that was for, and what is submitted was gathered right before. -/
def Event.Proper (access : Access World Loader)
    (instrumentation : Instrumentation World Loader Class) :
    Event World Loader Class → List (Event World Loader Class) → Prop
  | .renewed _ _, _ => True
  | .gathered outcome after world, earlier => ∃ classes before earliest,
      earlier = .renewed classes before :: earliest ∧
        Gathered access instrumentation classes before outcome after world
  | .submitted batch _, earlier => ∃ after world earliest,
      earlier = .gathered (.ok batch) after world :: earliest

/-- How a thread comes to its task: it reads right after a renewal and has left all that it read as
it was read, and it submits what it gathered right before. -/
def Task.Follows (access : Access World Loader)
    (instrumentation : Instrumentation World Loader Class) (contents : Contents Loader)
    (workspace : Workspace Loader) :
    Task Loader Class → List (Event World Loader Class) → Prop
  | .reading gathered rest, history => ∃ classes before earlier,
      history = .renewed classes before :: earlier ∧ gathered.map Prod.fst ++ rest = classes ∧
        Untouched access contents (before.registry.renew true) workspace ∧
        ∀ entry ∈ gathered, Faithful instrumentation contents workspace entry
  | .submitting batch, history => ∃ after world earlier,
      history = .gathered (.ok batch) after world :: earlier
  | _, _ => True

/-- A thread that asked for the lock has nothing to account for. -/
theorem Job.follows_after (job : Job Loader Class) (outcome : Outcome) {contents : Contents Loader}
    {workspace : Workspace Loader} {history : List (Event World Loader Class)} :
    (job.after outcome).Follows access instrumentation contents workspace history := by
  cases outcome with
  | done =>
    cases job with
    | hold _ => trivial
    | transform _ => trivial
    | retransform _ => trivial
  | waiting => trivial
  | refused error => trivial

/-- What every scene that may come about is like. -/
structure Sound (access : Access World Loader)
    (instrumentation : Instrumentation World Loader Class)
    (scene : Scene Thread World Loader Class) : Prop where
  locked : Locked scene.lock scene.task
  follows : ∀ thread, (scene.task thread).Follows access instrumentation
    (access.contents scene.world) scene.workspace (scene.history thread)
  proper : ∀ thread event earlier, event :: earlier <:+ scene.history thread →
    event.Proper access instrumentation earlier

/-- What a thread is about to do depends on the workspace only while it gathers definitions. -/
theorem Task.Follows.elsewhere {task : Task Loader Class} {contents others : Contents Loader}
    {workspace after : Workspace Loader} {history : List (Event World Loader Class)}
    (h : task.Follows access instrumentation contents workspace history)
    (hsame : ∀ gathered rest, task = .reading gathered rest →
      after = workspace ∧ others = contents) :
    task.Follows access instrumentation others after history := by
  cases task with
  | reading gathered rest =>
    obtain ⟨rfl, rfl⟩ := hsame gathered rest rfl
    exact h
  | submitting batch => exact h
  | idle => trivial
  | waiting job => trivial
  | fetching request => trivial
  | rewriting transformer id => trivial
  | renewing classes => trivial

namespace Sound

variable {scene later : Scene Thread World Loader Class} {thread : Thread}
  {next : Task Loader Class}

/-- While a thread needs the lock, no other one gathers definitions. -/
theorem alone (h : Sound access instrumentation scene) {mode : Mode} {goal : Prop}
    (hthread : (scene.task thread).mode? = some mode) (other : Thread) (hother : other ≠ thread)
    (gathered : List (Class × Bytes)) (rest : List Class)
    (hreading : scene.task other = .reading gathered rest) : goal :=
  absurd (h.locked.alone hthread (by rw [hreading]; rfl)) hother

/-- One thread goes on with another task, and has something more to look back on. -/
theorem move (h : Sound access instrumentation scene) (hlocked : Locked later.lock later.task)
    (htask : later.task = Function.update scene.task thread next)
    (hothers : ∀ other, other ≠ thread → ∀ gathered rest,
      scene.task other = .reading gathered rest → later.workspace = scene.workspace ∧
        access.contents later.world = access.contents scene.world)
    {history : List (Event World Loader Class)}
    (hhistory : later.history = Function.update scene.history thread history)
    (hfollows : next.Follows access instrumentation (access.contents later.world) later.workspace
      history)
    (hproper : ∀ event earlier, event :: earlier <:+ history →
      event.Proper access instrumentation earlier) :
    Sound access instrumentation later where
  locked := hlocked
  follows other := by
    rw [htask, hhistory]
    by_cases hother : other = thread
    · subst hother
      rw [Function.update_self, Function.update_self]
      exact hfollows
    · rw [Function.update_of_ne hother, Function.update_of_ne hother]
      exact (h.follows other).elsewhere (hothers other hother)
  proper other event earlier hsuffix := by
    rw [hhistory] at hsuffix
    by_cases hother : other = thread
    · subst hother
      rw [Function.update_self] at hsuffix
      exact hproper event earlier hsuffix
    · rw [Function.update_of_ne hother] at hsuffix
      exact h.proper other event earlier hsuffix

/-- One thread goes on with another task, and nothing worth noting has happened. -/
theorem proceed (h : Sound access instrumentation scene) (hlocked : Locked later.lock later.task)
    (htask : later.task = Function.update scene.task thread next)
    (hothers : ∀ other, other ≠ thread → ∀ gathered rest,
      scene.task other = .reading gathered rest → later.workspace = scene.workspace ∧
        access.contents later.world = access.contents scene.world)
    (hhistory : later.history = scene.history)
    (hfollows : next.Follows access instrumentation (access.contents later.world) later.workspace
      (scene.history thread)) :
    Sound access instrumentation later :=
  h.move hlocked htask hothers (hhistory.trans (Function.update_eq_self ..).symm) hfollows
    (h.proper thread)

/-- One thread goes on with another task after an event. -/
theorem recount (h : Sound access instrumentation scene) (hlocked : Locked later.lock later.task)
    (htask : later.task = Function.update scene.task thread next)
    (hothers : ∀ other, other ≠ thread → ∀ gathered rest,
      scene.task other = .reading gathered rest → later.workspace = scene.workspace ∧
        access.contents later.world = access.contents scene.world)
    {event : Event World Loader Class}
    (hhistory : later.history =
      Function.update scene.history thread (event :: scene.history thread))
    (hfollows : next.Follows access instrumentation (access.contents later.world) later.workspace
      (event :: scene.history thread))
    (hevent : event.Proper access instrumentation (scene.history thread)) :
    Sound access instrumentation later := by
  refine h.move hlocked htask hothers hhistory hfollows fun other earlier hsuffix ↦ ?_
  rcases List.suffix_cons_iff.mp hsuffix with hsame | hold
  · obtain ⟨rfl, rfl⟩ := List.cons.inj hsame
    exact hevent
  · exact h.proper thread other earlier hold

theorem enter (h : Sound access instrumentation scene) (hidle : scene.task thread = .idle)
    (job : Job Loader Class) : Sound access instrumentation (scene.enter thread job) :=
  h.proceed (h.locked.enter hidle job) rfl (fun _ _ _ _ _ ↦ ⟨rfl, rfl⟩) rfl (job.follows_after _)

theorem look (h : Sound access instrumentation scene) {job : Job Loader Class}
    (hwaiting : scene.task thread = .waiting job) :
    Sound access instrumentation (scene.look thread job) :=
  h.proceed (h.locked.look hwaiting) rfl (fun _ _ _ _ _ ↦ ⟨rfl, rfl⟩) rfl (job.follows_after _)

theorem leave (h : Sound access instrumentation scene) (hidle : scene.task thread = .idle)
    (mode : Mode) : Sound access instrumentation (scene.leave thread mode .idle) := by
  have hthread (job : Job Loader Class) : scene.task thread ≠ .waiting job := by
    rw [hidle]
    exact nofun
  exact h.proceed (h.locked.leave hthread mode rfl nofun) rfl (fun _ _ _ _ _ ↦ ⟨rfl, rfl⟩) rfl
    trivial

theorem fetch (h : Sound access instrumentation scene) {request : Request Loader}
    (htask : scene.task thread = .fetching request) :
    Sound access instrumentation (scene.fetch access thread request) := by
  have hmode : (scene.task thread).mode? = some .shared := by rw [htask]; rfl
  have hthread := Task.ne_waiting_of_mode hmode
  rw [Scene.fetch]
  split
  · exact h.proceed (h.locked.keep hthread (fun mode hnext ↦ hmode.trans hnext) nofun) rfl
      (h.alone hmode) rfl trivial
  · exact h.proceed (h.locked.leave hthread .shared rfl nofun) rfl (h.alone hmode) rfl trivial

theorem rewrite (h : Sound access instrumentation scene) {transformer : Transformer Loader}
    {id : ClassId} (htask : scene.task thread = .rewriting transformer id) :
    Sound access instrumentation (scene.rewrite thread transformer id) := by
  have hmode : (scene.task thread).mode? = some .shared := by rw [htask]; rfl
  have hthread := Task.ne_waiting_of_mode hmode
  exact h.proceed (h.locked.leave hthread .shared rfl nofun) rfl (h.alone hmode) rfl trivial

theorem renew (h : Sound access instrumentation scene) {classes : List Class}
    (htask : scene.task thread = .renewing classes) :
    Sound access instrumentation (scene.renew thread classes) := by
  have hmode : (scene.task thread).mode? = some .exclusive := by rw [htask]; rfl
  have hthread := Task.ne_waiting_of_mode hmode
  have hfollows : (Task.reading [] classes).Follows access instrumentation
      (access.contents scene.world)
      { scene.view thread with pool := none, registry := scene.workspace.registry.renew true }
      (.renewed classes (scene.view thread) :: scene.history thread) :=
    ⟨classes, scene.view thread, _, rfl, rfl, untouched_renew (scene.view thread), nofun⟩
  exact h.recount (h.locked.keep hthread (fun mode hnext ↦ hmode.trans hnext) nofun) rfl
    (h.alone hmode) rfl hfollows trivial

/-- A gathering ends, with the workspace and the world as they are by then. -/
theorem finish (h : Sound access instrumentation scene) {gathered : List (Class × Bytes)}
    {rest classes : List Class} (htask : scene.task thread = .reading gathered rest)
    {before : Workspace Loader} {earlier : List (Event World Loader Class)}
    (hhistory : scene.history thread = .renewed classes before :: earlier)
    {workspace : Workspace Loader} {world : World}
    {outcome : Except Failure (List (Class × Bytes))}
    (hgathered : Gathered access instrumentation classes before outcome workspace world) :
    Sound access instrumentation
      (Scene.finish { scene with workspace, world } thread outcome) := by
  have hmode : (scene.task thread).mode? = some .exclusive := by rw [htask]; rfl
  have hthread := Task.ne_waiting_of_mode hmode
  -- The event has the workspace as the thread sees it, with its own holds.
  have hview : Gathered access instrumentation classes before outcome
      { workspace with holds := scene.lock.holds thread } world :=
    ⟨hgathered.untouched.withHolds _, hgathered.faithful⟩
  have hevent : (Event.gathered outcome { workspace with holds := scene.lock.holds thread }
      world).Proper access instrumentation (scene.history thread) :=
    ⟨classes, before, earlier, hhistory, hview⟩
  cases outcome with
  | ok batch =>
    exact h.recount (h.locked.leave hthread .exclusive rfl nofun) rfl (h.alone hmode) rfl
      ⟨_, _, _, rfl⟩ hevent
  | error failure =>
    exact h.recount (h.locked.leave hthread .exclusive rfl nofun) rfl (h.alone hmode) rfl trivial
      hevent

theorem read (h : Sound access instrumentation scene) (hcalm : access.Calm)
    (hmachine : instrumentation.Calm access) {gathered : List (Class × Bytes)} {cls : Class}
    {rest : List Class} (htask : scene.task thread = .reading gathered (cls :: rest)) :
    Sound access instrumentation
      (scene.read access instrumentation thread gathered cls rest) := by
  have hmode : (scene.task thread).mode? = some .exclusive := by rw [htask]; rfl
  have hthread := Task.ne_waiting_of_mode hmode
  have hfollows := h.follows thread
  rw [htask] at hfollows
  obtain ⟨classes, before, earlier, hhistory, hclasses, huntouched, hfaithful⟩ := hfollows
  have hview : Untouched access (access.contents scene.world) (before.registry.renew true)
      (scene.view thread) := huntouched.withHolds _
  have hread := definition_ends hcalm hmachine hview gathered.length cls scene.world rfl
  rw [Scene.read]
  generalize ((definition access instrumentation gathered.length cls).run.run
    (scene.view thread)).run scene.world = ended at hread ⊢
  obtain ⟨⟨outcome, workspace⟩, world⟩ := ended
  obtain ⟨hcontents : access.contents world = _, hend⟩ := hread
  cases outcome with
  | ok entry =>
    obtain ⟨hextends, rfl, hentry⟩ := hend
    have hnext : (Task.reading (gathered ++ [entry]) rest).Follows access instrumentation
        (access.contents world) workspace (scene.history thread) := by
      refine ⟨classes, before, earlier, hhistory, ?_, hcontents ▸ hextends.fresh, ?_⟩
      · rw [← hclasses, List.map_append, List.append_assoc]
        rfl
      · rw [hcontents]
        refine List.forall_mem_append.mpr
          ⟨fun other hmem ↦ ?_, List.forall_mem_singleton.mpr hentry⟩
        have hother : Faithful instrumentation (access.contents scene.world) (scene.view thread)
            other := hfaithful other hmem
        exact hother.mono hextends
    exact h.proceed (h.locked.keep hthread (fun mode hnext ↦ hmode.trans hnext) nofun) rfl
      (h.alone hmode) rfl hnext
  | error failure =>
    have hgathered : Gathered access instrumentation classes before (.error failure) workspace
        world :=
      ⟨hcontents ▸ hend.fresh, nofun⟩
    exact h.finish htask hhistory hgathered

/-- A thread that has read all its classes. -/
theorem complete (h : Sound access instrumentation scene) {gathered : List (Class × Bytes)}
    (htask : scene.task thread = .reading gathered []) :
    Sound access instrumentation (scene.finish thread (.ok gathered)) := by
  have hfollows := h.follows thread
  rw [htask] at hfollows
  obtain ⟨classes, before, earlier, hhistory, hclasses, huntouched, hfaithful⟩ := hfollows
  rw [List.append_nil] at hclasses
  refine h.finish htask hhistory ⟨huntouched, fun batch hbatch ↦ ?_⟩
  cases hbatch
  exact ⟨hclasses, hfaithful⟩

theorem submit (h : Sound access instrumentation scene) {batch : List (Class × Bytes)}
    (htask : scene.task thread = .submitting batch)
    (hcalm : scene.Gathers → access.contents
      (scene.submit instrumentation thread batch).world = access.contents scene.world) :
    Sound access instrumentation (scene.submit instrumentation thread batch) := by
  have hthread (job : Job Loader Class) : scene.task thread ≠ .waiting job := by
    rw [htask]
    exact nofun
  have hfollows := h.follows thread
  rw [htask] at hfollows
  exact h.recount (h.locked.keep hthread nofun nofun) rfl
    (fun other _ gathered rest hother ↦ ⟨rfl, hcalm ⟨other, gathered, rest, hother⟩⟩) rfl trivial
    hfollows

theorem advance (h : Sound access instrumentation scene) (hcalm : access.Calm)
    (hmachine : instrumentation.Calm access)
    (hquiet : ∀ batch, scene.task thread = .submitting batch → scene.Gathers →
      access.contents (scene.submit instrumentation thread batch).world =
        access.contents scene.world) :
    Sound access instrumentation (scene.advance access instrumentation thread) := by
  rw [Scene.advance]
  split
  · exact h
  · exact h
  · exact h.fetch ‹_›
  · exact h.rewrite ‹_›
  · exact h.renew ‹_›
  · exact h.complete ‹_›
  · exact h.read hcalm hmachine ‹_›
  · exact h.submit ‹_› (hquiet _ ‹_›)

/-- Nobody is gathering, or else what the gathering relies on stays. -/
theorem outside (h : Sound access instrumentation scene) {workspace : Workspace Loader}
    {world : World} (hfree : scene.Gathers →
      workspace = scene.workspace ∧ access.contents world = access.contents scene.world) :
    Sound access instrumentation { scene with workspace, world } where
  locked := h.locked
  follows thread := (h.follows thread).elsewhere fun gathered rest hreading ↦
    hfree ⟨thread, gathered, rest, hreading⟩
  proper := h.proper

theorem step (h : Sound access instrumentation scene) (hcalm : access.Calm)
    (hmachine : instrumentation.Calm access)
    (hstep : Scene.Step access instrumentation scene later) :
    Sound access instrumentation later := by
  cases hstep with
  | enter job hidle => exact h.enter hidle job
  | look hwaiting => exact h.look hwaiting
  | leave mode hidle => exact h.leave hidle mode
  | advance hquiet => exact h.advance hcalm hmachine hquiet
  | drift world hquiet => exact h.outside fun hgathers ↦ ⟨rfl, hquiet hgathers⟩
  | change workspace hfree => exact h.outside fun hgathers ↦ absurd hgathers hfree

theorem start (workspace : Workspace Loader) (world : World) :
    Sound access instrumentation
      (Scene.start workspace world : Scene Thread World Loader Class) where
  locked := ⟨FairLock.lawful_unlocked, nofun, nofun, nofun⟩
  follows _ := trivial
  proper _ _ _ hsuffix := absurd (List.suffix_nil.mp hsuffix) (List.cons_ne_nil _ _)

end Sound

theorem sound_of_reachable {scene : Scene Thread World Loader Class} (hcalm : access.Calm)
    (hmachine : instrumentation.Calm access) (h : scene.Reachable access instrumentation) :
    Sound access instrumentation scene := by
  obtain ⟨workspace, world, hsteps⟩ := h
  induction hsteps with
  | refl => exact .start workspace world
  | tail _ hstep ih => exact ih.step hcalm hmachine hstep

/-! ### Rehearsals -/

/-- What loaders have in a rehearsal does not depend on what happened in it. -/
theorem contents_rehearsal (files : Files) (world other : Rehearsal) :
    (Rehearsal.access files).contents world = (Rehearsal.access files).contents other := by
  funext entry name
  cases entry with
  | directory path => rfl
  | archive path => rfl
  | loader handle =>
    change (MemoryLoader.findResource handle (ClassName.resource name) world).1 =
      (MemoryLoader.findResource handle (ClassName.resource name) other).1
    rw [MemoryLoader.findResource]
    split
    · rfl
    · rfl

/-- A class without anything in it. -/
def emptyClass : Bytes :=
  [0xCA, 0xFE, 0xBA, 0xBE, 0, 0, 0, 52, 0, 3, 1, 0, 1, 65, 7, 0, 1, 0, 0, 0, 2, 0, 0, 0, 0, 0, 0,
    0, 0, 0, 0]

def upgraded : RehearsedClass :=
  ⟨.ok "A", .ok none⟩

end ClassWeaver.Redefinition
