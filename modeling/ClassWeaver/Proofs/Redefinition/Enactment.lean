import ClassWeaver.Proofs.Redefinition.Submission
import ClassWeaver.Proofs.Workspace.Rewriting
import ClassWeaver.Transformer.Chain

/-!
What a thread does step by step is what the workspace does in one go.

A thread that does not have to wait for the lock, and then is left alone, gathers definitions one
after the other, gives the lock back and submits them. The scene that it ends in has the workspace,
the world and the events of a retransformation (`Scene.Enacts`); and so it is for transformations.
Its own holds of the lock are those of the workspace that it sees.
-/

set_option autoImplicit false
set_option relaxedAutoImplicit false

namespace ClassWeaver.Redefinition

open Search Workspace Lock

variable {Thread World Loader Class : Type} [DecidableEq Thread]
  {access : Access World Loader} {instrumentation : Instrumentation World Loader Class}

/-! ### Work under the shared lock -/

/-- The lock is given back as it was taken, if the work leaves it alone. -/
theorem shared_run_of_holds {α : Type} {work : Work World Loader α} {answer : α}
    {workspace after : Workspace Loader} {world later : World}
    (hwork : (work.run { workspace with holds := workspace.holds.lockShared }).run world =
      ((answer, after), later)) (hholds : after.holds = workspace.holds.lockShared) :
    ((shared work).run workspace).run world =
      ((answer, { after with holds := workspace.holds }), later) := by
  have hunlocked : after.holds.unlockShared = .ok workspace.holds := by
    rw [hholds, Lock.Holds.unlockShared_lockShared]
  exact Rewriting.shared_run_of_release hwork (Rewriting.release_run_of_ok hunlocked later)

/-! ### A thread that is left alone -/

namespace Scene

/-- A thread asks for the lock, or looks at it again, and then does not have to wait. -/
inductive Takes (thread : Thread) (job : Job Loader Class) :
    Scene Thread World Loader Class → Scene Thread World Loader Class → Prop
  | enter {scene} (hidle : scene.task thread = .idle)
    (hserved : (Threads.lockIn scene.lock job.mode thread).2 ≠ .waiting) :
    Takes thread job scene (scene.enter thread job)
  | look {scene} (hwaiting : scene.task thread = .waiting job)
    (hserved : (scene.lock.look thread).2 = true) :
    Takes thread job scene (scene.look thread job)

variable (access instrumentation) in
/-- What comes about while only one thread goes on. -/
def Alone (thread : Thread) :
    Scene Thread World Loader Class → Scene Thread World Loader Class → Prop :=
  Relation.ReflTransGen fun scene later ↦
    Step access instrumentation scene later ∧ later = scene.advance access instrumentation thread

variable {scene next later : Scene Thread World Loader Class} {thread : Thread}
  {job : Job Loader Class} {classes : List Class}

/-- A thread that takes the lock is refused, or has it once more and begins with its job. -/
theorem Takes.cases (h : scene.Takes thread job next) (hlocked : Locked scene.lock scene.task) :
    (scene.lock.Refuses thread job.mode ∧ next = scene.assign thread .idle) ∨
    (¬scene.lock.Refuses thread job.mode ∧ ∃ lock, scene.lock.Gains thread job.mode lock ∧
      next = { scene with lock }.assign thread job.first) := by
  cases h with
  | enter hidle hserved =>
    cases houtcome : (Threads.lockIn scene.lock job.mode thread).2 with
    | done =>
      refine .inr ⟨fun hrefuses ↦ ?_, _, hlocked.lawful.gains_lockIn houtcome, ?_⟩
      · rw [hlocked.lawful.lockIn_of_refuses hrefuses] at houtcome
        cases houtcome
      · rw [Scene.enter]
        dsimp only
        rw [houtcome, Job.after]
    | waiting => exact absurd houtcome hserved
    | refused error =>
      refine .inl ⟨(hlocked.lawful.refuses_of_refused houtcome).1, ?_⟩
      rw [Scene.enter]
      dsimp only
      rw [houtcome, Job.after, FairLock.lockIn_of_refused houtcome]
  | look hwaiting hserved =>
    refine .inr ⟨fun hrefuses ↦ ?_, _, hlocked.gains_look hwaiting hserved, ?_⟩
    · have hnone := hlocked.waiting thread job hwaiting .shared
      exact absurd hrefuses.2.2 (hnone ▸ Nat.lt_irrefl 0)
    · rw [Scene.look]
      dsimp only
      rw [if_pos hserved, Job.after]

theorem Takes.locked (h : scene.Takes thread job next) (hlocked : Locked scene.lock scene.task) :
    Locked next.lock next.task := by
  cases h with
  | enter hidle hserved => exact hlocked.enter hidle job
  | look hwaiting hserved => exact hlocked.look hwaiting

/-- A thread may go on by itself, whatever others do, unless it submits a batch. -/
theorem Alone.head (hbusy : ∀ batch, scene.task thread ≠ .submitting batch)
    (h : Alone access instrumentation thread (scene.advance access instrumentation thread) later) :
    Alone access instrumentation thread scene later :=
  Relation.ReflTransGen.head ⟨.advance fun batch hbatch ↦ absurd hbatch (hbusy batch), rfl⟩ h

/-- A thread may submit a batch, if no other one is gathering definitions. -/
theorem Alone.submit {batch : List (Class × Bytes)} (hbatch : scene.task thread = .submitting batch)
    (hfree : ¬scene.Gathers) :
    Alone access instrumentation thread scene (scene.submit instrumentation thread batch) := by
  have hstep : scene.submit instrumentation thread batch =
      scene.advance access instrumentation thread := by rw [advance, hbatch]
  refine Relation.ReflTransGen.single ⟨?_, hstep⟩
  rw [hstep]
  exact .advance fun _ _ hgathers ↦ absurd hgathers hfree

/-! ### Gathering -/

theorem finish_assign (scene : Scene Thread World Loader Class) (thread : Thread)
    (task : Task Loader Class) (outcome : Except Failure (List (Class × Bytes))) :
    (scene.assign thread task).finish thread outcome = scene.finish thread outcome := by
  simp only [finish, leave, note, assign, view, Function.update_idem]

theorem view_eq {workspace : Workspace Loader} (hworkspace : scene.workspace = workspace)
    (hholds : workspace.holds = scene.lock.holds thread) : scene.view thread = workspace := by
  subst hworkspace
  rw [view, ← hholds]

/-- The steps of one thread add up to what gathering does. -/
theorem alone_definitions {gathered : List (Class × Bytes)} {rest : List Class}
    {outcome : Except Failure (List (Class × Bytes))} {after : Workspace Loader} {world : World}
    (htask : scene.task thread = .reading gathered rest)
    (hholds : scene.workspace.holds = scene.lock.holds thread)
    (hruns : Runs (definitions access instrumentation gathered.length rest) (scene.view thread)
      scene.world outcome after world) :
    Alone access instrumentation thread scene
      (Scene.finish { scene with workspace := after, world } thread
        (outcome.map (gathered ++ ·))) := by
  induction rest generalizing scene gathered outcome after world with
  | nil =>
    refine Alone.head (by simp [htask]) ?_
    rw [view_eq rfl hholds] at hruns
    have hnothing : Runs (definitions access instrumentation gathered.length []) scene.workspace
        scene.world (.ok []) scene.workspace scene.world := rfl
    cases hnothing.symm.trans hruns
    rw [advance, htask, Except.map, List.append_nil]
    exact .refl
  | cons cls rest ih =>
    refine Alone.head (by simp [htask]) ?_
    obtain ⟨first, between, middle, hfirst⟩ := exists_runs
      (definition access instrumentation gathered.length cls) (scene.view thread) scene.world
    have hsame : between.holds = scene.lock.holds thread := sameHolds_definition hfirst
    rw [advance, htask]
    dsimp only [Scene.read]
    rw [hfirst]
    cases first with
    | error failure =>
      cases (runs_definitions_cons_of_error hfirst rest).symm.trans hruns
      exact .refl
    | ok entry =>
      obtain ⟨others, last, lastWorld, hrest⟩ := exists_runs
        (definitions access instrumentation (gathered.length + 1) rest) between middle
      cases (runs_definitions_cons hfirst hrest).symm.trans hruns
      let following := { scene with workspace := between, world := middle }.assign thread
        (.reading (gathered ++ [entry]) rest)
      have hfollowing : following.task thread = .reading (gathered ++ [entry]) rest :=
        Function.update_self ..
      have hview : following.view thread = between := view_eq rfl hsame
      have halone := ih hfollowing hsame (by rw [hview, List.length_append]; exact hrest)
      have hjoin : (others.map (entry :: ·)).map (gathered ++ ·) =
          others.map (gathered ++ [entry] ++ ·) := by
        cases others with
        | error failure => rfl
        | ok batch => simp [Except.map]
      rw [hjoin, ← finish_assign _ thread (.reading (gathered ++ [entry]) rest)]
      exact halone

/-- A thread that has the lock and renews gathers what `gather` gathers, step by step. -/
theorem alone_gather {outcome : Except Failure (List (Class × Bytes))} {after : Workspace Loader}
    {world : World} (htask : scene.task thread = .renewing classes)
    (hgather : ((gather access instrumentation classes).run (scene.view thread)).run scene.world =
      ((outcome, after), world)) :
    Alone access instrumentation thread scene
      (Scene.finish ({ scene with workspace := after, world }.note thread
        (.renewed classes (scene.view thread))) thread outcome) := by
  refine Alone.head (by simp [htask]) ?_
  have hnext : (scene.renew thread classes).task thread = .reading [] classes :=
    Function.update_self ..
  have hruns : Runs (definitions access instrumentation 0 classes)
      ((scene.renew thread classes).view thread) scene.world outcome after world := hgather
  have halone := alone_definitions hnext rfl hruns
  have hall : outcome.map (([] : List (Class × Bytes)) ++ ·) = outcome := by
    cases outcome with
    | error failure => rfl
    | ok batch => rfl
  rw [hall] at halone
  rw [advance, htask, ← finish_assign _ thread (.reading [] classes)]
  exact halone

/-- A thread that has got the lock gathers fresh definitions and gives the lock back. -/
theorem alone_freshDefinitions {lock : FairLock Thread}
    {outcome : Except Failure (List (Class × Bytes))} {after : Workspace Loader} {world : World}
    (hrefuses : ¬scene.lock.Refuses thread .exclusive)
    (hgains : scene.lock.Gains thread .exclusive lock)
    (hruns : Runs (freshDefinitions access instrumentation classes) (scene.view thread) scene.world
      outcome after world) :
    let next := { scene with lock }.assign thread (.renewing classes)
    ∃ last, let later := Scene.finish ({ next with workspace := last, world }.note thread
        (.renewed classes (next.view thread))) thread outcome
      Alone access instrumentation thread next later ∧ later.view thread = after := by
  intro next
  rcases hgather : ((gather access instrumentation classes).run (next.view thread)).run
    scene.world with ⟨⟨gathered, last⟩, gatheredWorld⟩
  have hlock : (scene.view thread).holds.lockExclusive = .ok (lock.holds thread) :=
    hgains.lockExclusive_holds hrefuses
  have hread : Runs (definitions access instrumentation 0 classes)
      (opened (scene.view thread) (lock.holds thread)) scene.world gathered last gatheredWorld :=
    hgather
  cases (runs_freshDefinitions hlock hread).symm.trans hruns
  have hnext : next.task thread = .renewing classes := Function.update_self ..
  refine ⟨last, alone_gather hnext hgather, ?_⟩
  exact congrArg (fun holds ↦ ({ last with holds } : Workspace Loader)) hgains.holds_unlockIn

/-! ### Submitting -/

/-- While a thread had the lock exclusively, no other one was gathering definitions. -/
theorem not_gathers (h : Locked next.lock next.task)
    (hmode : (next.task thread).mode? = some .exclusive)
    (hothers : ∀ other, other ≠ thread → later.task other = next.task other)
    (hthread : ∀ gathered rest, later.task thread ≠ .reading gathered rest) : ¬later.Gathers := by
  rintro ⟨other, gathered, rest, hreading⟩
  by_cases hother : other = thread
  · subst hother
    exact hthread gathered rest hreading
  · rw [hothers other hother] at hreading
    exact hother (h.alone hmode (by rw [hreading]; rfl))

/-- The events of a retransformation that comes to an outcome, the last one in front. -/
inductive Recounts (classes : List Class) (before : Workspace Loader) :
    Except Failure Unit → List (Event World Loader Class) → Prop
  /-- The thread did not get the lock. -/
  | refused : Recounts classes before (.error (.illegalState .cannotUpgrade)) []
  | missed {failure after world} : Recounts classes before (.error failure)
    [.gathered (.error failure) after world, .renewed classes before]
  | submitted {batch after world outcome} : Recounts classes before outcome
    [.submitted batch outcome, .gathered (.ok batch) after world, .renewed classes before]

/-- A thread that has got the lock gathers fresh definitions, gives the lock back and submits them
if there are any. -/
theorem exists_alone_submit {lock : FairLock Thread} {outcome : Except Failure Unit}
    {after : Workspace Loader} {world : World}
    (hlocked : Locked lock (Function.update scene.task thread (.renewing classes)))
    (hrefuses : ¬scene.lock.Refuses thread .exclusive)
    (hgains : scene.lock.Gains thread .exclusive lock)
    (hruns : Runs (freshDefinitions access instrumentation classes >>= fun batch ↦
      ask (instrumentation.redefine batch)) (scene.view thread) scene.world outcome after world) :
    let next := { scene with lock }.assign thread (.renewing classes)
    ∃ later events, Alone access instrumentation thread next later ∧ later.task thread = .idle ∧
      later.view thread = after ∧ later.world = world ∧
      later.history thread = events ++ scene.history thread ∧
      Recounts classes (next.view thread) outcome events := by
  intro next
  obtain ⟨gathered, between, middle, hfresh⟩ := exists_runs
    (freshDefinitions access instrumentation classes) (scene.view thread) scene.world
  obtain ⟨last, halone, hview⟩ := alone_freshDefinitions hrefuses hgains hfresh
  let ended := Scene.finish ({ next with workspace := last, world := middle }.note thread
    (.renewed classes (next.view thread))) thread gathered
  have htask : ended.task thread = .afterGathering gathered := Function.update_self ..
  have hnote : ended.history thread =
      [.gathered gathered { last with holds := lock.holds thread } middle,
        .renewed classes (next.view thread)] ++ scene.history thread := by
    simp only [ended, finish, leave, note, assign, view, next, Function.update_self]
    rfl
  cases gathered with
  | error failure =>
    cases hfresh.bind_of_error.symm.trans hruns
    exact ⟨ended, _, halone, htask, hview, rfl, hnote, .missed⟩
  | ok batch =>
    rcases hanswer : (instrumentation.redefine batch).run middle with ⟨answer, answered⟩
    cases (hfresh.bind (runs_ask hanswer)).symm.trans hruns
    have hfree : ¬ended.Gathers := by
      have hnext : next.task thread = .renewing classes := Function.update_self ..
      have hmode : (next.task thread).mode? = some .exclusive := by rw [hnext]; rfl
      refine not_gathers hlocked hmode (fun other hother ↦ ?_)
        (by simp [htask, Task.afterGathering])
      simp only [ended, finish, leave, note, assign, Function.update_of_ne hother]
    have hsubmitted : (ended.submit instrumentation thread batch).history thread =
        .submitted batch outcome :: ended.history thread := by
      rw [submit, assign, note]
      refine (Function.update_self ..).trans ?_
      exact congrArg (fun answer ↦ .submitted batch answer.1 :: ended.history thread) hanswer
    rw [hnote] at hsubmitted
    exact ⟨_, _, halone.trans (Alone.submit htask hfree), Function.update_self .., hview,
      congrArg Prod.snd hanswer, hsubmitted, .submitted⟩

/-! ### Transforming -/

theorem alone_fetch {request : Request Loader} {id : ClassId} {between : Workspace Loader}
    {middle : World} (htask : scene.task thread = .fetching request)
    (hruns : Runs (getClassFor access request.loader request.name) (scene.view thread) scene.world
      (.ok id) between middle) :
    Alone access instrumentation thread scene
      ({ scene with workspace := between, world := middle }.assign thread
        (.rewriting request.transformer id)) := by
  refine Alone.head (by simp [htask]) ?_
  rw [advance, htask]
  dsimp only [fetch]
  rw [hruns]
  exact .refl

theorem alone_fetch_of_error {request : Request Loader} {failure : Failure}
    {between : Workspace Loader} {middle : World} (htask : scene.task thread = .fetching request)
    (hruns : Runs (getClassFor access request.loader request.name) (scene.view thread) scene.world
      (.error failure) between middle) :
    Alone access instrumentation thread scene
      (Scene.leave { scene with workspace := between, world := middle } thread .shared .idle) := by
  refine Alone.head (by simp [htask]) ?_
  rw [advance, htask]
  dsimp only [fetch]
  rw [hruns]
  exact .refl

theorem alone_rewrite {transformer : Transformer Loader} {id : ClassId}
    {answer : Except Failure (Option Bytes)} {after : Workspace Loader} {world : World}
    (htask : scene.task thread = .rewriting transformer id)
    (hruns : Runs (edit id transformer.weave) (scene.view thread) scene.world answer after world) :
    Alone access instrumentation thread scene
      (Scene.leave { scene with workspace := after, world } thread .shared .idle) := by
  refine Alone.head (by simp [htask]) ?_
  rw [advance, htask]
  dsimp only [rewrite]
  rw [hruns]
  exact .refl

/-- A thread that has got the lock in shared mode fetches and rewrites a class, and gives the lock
back. -/
theorem exists_alone_transform {lock : FairLock Thread} {request : Request Loader}
    {outcome : Except Failure (Option Bytes)} {after : Workspace Loader} {world : World}
    (haccept : request.transformer.accept request.loader request.name = true)
    (hgains : scene.lock.Gains thread .shared lock)
    (hruns : ((transform access request.transformer request.loader request.name).run
      (scene.view thread)).run scene.world = ((outcome, after), world)) :
    let next := { scene with lock }.assign thread (.fetching request)
    ∃ later, Alone access instrumentation thread next later ∧ later.task thread = .idle ∧
      later.view thread = after ∧ later.world = world ∧ later.history = scene.history := by
  intro next
  have hnext : next.task thread = .fetching request := Function.update_self ..
  have hview : next.view thread =
      { scene.view thread with holds := (scene.view thread).holds.lockShared } :=
    congrArg (fun holds ↦ ({ scene.workspace with holds } : Workspace Loader))
      hgains.lockShared_holds.symm
  have hend (last : Workspace Loader) :
      { last with holds := (Threads.unlockIn lock .shared thread).1.holds thread } =
        { last with holds := (scene.view thread).holds } :=
    congrArg (fun holds ↦ { last with holds }) hgains.holds_unlockIn
  rw [transform, if_pos haccept] at hruns
  obtain ⟨found, between, middle, hfound⟩ := exists_runs
    (getClassFor access request.loader request.name) (next.view thread) scene.world
  have hbetween : between.holds = lock.holds thread := sameHolds_getClassFor hfound
  cases found with
  | error failure =>
    have hwork : Runs (fetchAndWeave access request.transformer request.loader request.name)
        (next.view thread) scene.world (.error failure) between middle := hfound.bind_of_error
    rw [hview] at hwork
    cases (shared_run_of_holds hwork (hbetween.trans hgains.lockShared_holds.symm)).symm.trans hruns
    exact ⟨_, alone_fetch_of_error hnext hfound, Function.update_self .., hend between, rfl, rfl⟩
  | ok id =>
    let fetched := { next with workspace := between, world := middle }.assign thread
      (.rewriting request.transformer id)
    have hfetched : fetched.task thread = .rewriting request.transformer id :=
      Function.update_self ..
    have hfetchedView : fetched.view thread = between := view_eq rfl hbetween
    obtain ⟨answer, last, lastWorld, hwoven⟩ :=
      exists_runs (edit id request.transformer.weave) between middle
    have hlast : last.holds = lock.holds thread := (sameHolds_edit hwoven).trans hbetween
    have hwork : Runs (fetchAndWeave access request.transformer request.loader request.name)
        (next.view thread) scene.world answer last lastWorld := hfound.bind hwoven
    rw [hview] at hwork
    cases (shared_run_of_holds hwork (hlast.trans hgains.lockShared_holds.symm)).symm.trans hruns
    rw [← hfetchedView] at hwoven
    have halone : Alone access instrumentation thread next fetched := alone_fetch hnext hfound
    exact ⟨_, halone.trans (alone_rewrite hfetched hwoven), Function.update_self .., hend last, rfl,
      rfl⟩

/-! ### What a thread does by itself and what the workspace does in one go -/

theorem runs_exclusively_of_lockIn {α : Type} {work : Work World Loader α} {answer : α}
    {after : Workspace Loader} {world : World} (hlawful : scene.lock.Lawful)
    (hdone : (Threads.lockIn scene.lock .exclusive thread).2 = .done) :
    let held := scene.enter thread (.hold .exclusive)
    (work.run (held.view thread)).run held.world = ((answer, after), world) →
      after.holds = held.lock.holds thread →
        Runs (exclusively work) (scene.view thread) scene.world (.ok answer)
          ((leave { held with workspace := after } thread .exclusive .idle).view thread) world := by
  intro held hwork hholds
  have hgains := hlawful.gains_lockIn hdone
  have hrefuses : ¬scene.lock.Refuses thread .exclusive := fun hrefuses ↦ by
    rw [hlawful.lockIn_of_refuses hrefuses] at hdone
    cases hdone
  have hlock : (scene.view thread).holds.lockExclusive = .ok (held.lock.holds thread) :=
    hgains.lockExclusive_holds hrefuses
  have hleft : (leave { held with workspace := after } thread .exclusive .idle).view thread =
      { after with holds := (scene.view thread).holds } :=
    congrArg (fun holds ↦ ({ after with holds } : Workspace Loader)) hgains.holds_unlockIn
  rw [hleft]
  exact runs_exclusively hlock hwork hholds

theorem shared_run_of_lockIn {α : Type} {work : Work World Loader α} {answer : α}
    {after : Workspace Loader} {world : World} (hlawful : scene.lock.Lawful)
    (hdone : (Threads.lockIn scene.lock .shared thread).2 = .done) :
    let held := scene.enter thread (.hold .shared)
    (work.run (held.view thread)).run held.world = ((answer, after), world) →
      after.holds = held.lock.holds thread →
        ((Workspace.shared work).run (scene.view thread)).run scene.world =
          ((answer, (leave { held with workspace := after } thread .shared .idle).view thread),
            world) := by
  intro held hwork hholds
  have hgains := hlawful.gains_lockIn hdone
  have hlock : (scene.view thread).holds.lockShared = held.lock.holds thread :=
    hgains.lockShared_holds
  have hleft : (leave { held with workspace := after } thread .shared .idle).view thread =
      { after with holds := (scene.view thread).holds } :=
    congrArg (fun holds ↦ ({ after with holds } : Workspace Loader)) hgains.holds_unlockIn
  rw [hleft]
  refine shared_run_of_holds ?_ (hholds.trans hlock.symm)
  rw [hlock]
  exact hwork

/-- A thread that holds the lock in shared mode only gathers nothing. -/
theorem runs_freshDefinitions_of_refuses (hrefuses : scene.lock.Refuses thread .exclusive) :
    Runs (freshDefinitions access instrumentation classes) (scene.view thread) scene.world
      (.error (.illegalState .cannotUpgrade)) (scene.view thread) scene.world := by
  have hlock : (scene.view thread).holds.lockExclusive = .error .cannotUpgrade :=
    FairLock.lockExclusive_holds_of_refuses hrefuses
  exact (runs_exclusively_of_refused hlock).bind_of_error

theorem exists_alone_of_freshDefinitions (hlocked : Locked scene.lock scene.task)
    (htakes : scene.Takes thread (.retransform classes) next)
    {outcome : Except Failure (List (Class × Bytes))} {after : Workspace Loader} {world : World}
    (hruns : Runs (freshDefinitions access instrumentation classes) (scene.view thread) scene.world
      outcome after world) :
    ∃ later, Alone access instrumentation thread next later ∧
      later.task thread = .afterGathering outcome ∧ later.view thread = after ∧
      later.world = world ∧
      (outcome = .error (.illegalState .cannotUpgrade) ∧
          later.history thread = scene.history thread ∨
        later.history thread =
          .gathered outcome { after with holds := next.lock.holds thread } world ::
            .renewed classes (next.view thread) :: scene.history thread) := by
  rcases htakes.cases hlocked with ⟨hrefuses, rfl⟩ | ⟨hrefuses, lock, hgains, rfl⟩
  · cases (runs_freshDefinitions_of_refuses hrefuses).symm.trans hruns
    exact ⟨_, .refl, Function.update_self .., rfl, rfl, .inl ⟨rfl, rfl⟩⟩
  · obtain ⟨last, halone, hview⟩ := alone_freshDefinitions hrefuses hgains hruns
    subst hview
    refine ⟨_, halone, Function.update_self .., rfl, rfl, .inr ?_⟩
    simp only [finish, leave, note, assign, view, Function.update_self]

theorem exists_alone_of_retransform (hlocked : Locked scene.lock scene.task)
    (htakes : scene.Takes thread (.retransform classes) next) {asking world : World}
    {outcome : Except Failure Unit} {after : Workspace Loader}
    (hsupport : instrumentation.canRedefine.run asking = (true, scene.world))
    (hclasses : classes ≠ [])
    (hruns : Runs (retransform access (some instrumentation) classes) (scene.view thread) asking
      outcome after world) :
    ∃ later events, Alone access instrumentation thread next later ∧ later.task thread = .idle ∧
      later.view thread = after ∧ later.world = world ∧
      later.history thread = events ++ scene.history thread ∧
      Recounts classes (next.view thread) outcome events := by
  obtain ⟨rest, last, lastWorld, hrest⟩ := exists_runs
    (freshDefinitions access instrumentation classes >>= fun batch ↦
      ask (instrumentation.redefine batch)) (scene.view thread) scene.world
  cases (runs_retransform hsupport hclasses hrest).symm.trans hruns
  have hnext := htakes.locked hlocked
  rcases htakes.cases hlocked with ⟨hrefuses, rfl⟩ | ⟨hrefuses, lock, hgains, rfl⟩
  · cases (runs_freshDefinitions_of_refuses hrefuses).bind_of_error.symm.trans hrest
    exact ⟨_, [], .refl, Function.update_self .., rfl, rfl, rfl, .refused⟩
  · exact exists_alone_submit hnext hrefuses hgains hrest

variable (access instrumentation) in
/-- The steps of a thread that does not have to wait, and then is left alone, add up to what the
workspace does in one go, with the holds of that thread. -/
structure Enacts (scene : Scene Thread World Loader Class) (thread : Thread) : Prop where
  /-- What is done exclusively is done with the lock, which is given back afterwards. -/
  exclusively : ∀ (α : Type) (work : Work World Loader α) (answer : α) (after : Workspace Loader)
    (world : World), (Threads.lockIn scene.lock .exclusive thread).2 = .done →
      let held := scene.enter thread (.hold .exclusive)
      (work.run (held.view thread)).run held.world = ((answer, after), world) →
        after.holds = held.lock.holds thread →
          Runs (Workspace.exclusively work) (scene.view thread) scene.world (.ok answer)
            ((leave { held with workspace := after } thread .exclusive .idle).view thread) world
  shared : ∀ (α : Type) (work : Work World Loader α) (answer : α) (after : Workspace Loader)
    (world : World), (Threads.lockIn scene.lock .shared thread).2 = .done →
      let held := scene.enter thread (.hold .shared)
      (work.run (held.view thread)).run held.world = ((answer, after), world) →
        after.holds = held.lock.holds thread →
          ((Workspace.shared work).run (scene.view thread)).run scene.world = ((answer,
            (leave { held with workspace := after } thread .shared .idle).view thread), world)
  /-- Gathering fresh definitions is the part of a retransformation until the lock is given back. -/
  gathers : ∀ classes next outcome after world, scene.Takes thread (.retransform classes) next →
    Runs (freshDefinitions access instrumentation classes) (scene.view thread) scene.world outcome
      after world →
        ∃ later, Alone access instrumentation thread next later ∧
          later.task thread = .afterGathering outcome ∧ later.view thread = after ∧
          later.world = world ∧
          (outcome = .error (.illegalState .cannotUpgrade) ∧
              later.history thread = scene.history thread ∨
            later.history thread =
              .gathered outcome { after with holds := next.lock.holds thread } world ::
                .renewed classes (next.view thread) :: scene.history thread)
  /-- A retransformation asks the machine whether it can redefine classes, and if it can and there
  are any, the rest is done step by step. -/
  retransforms : ∀ asking supported classes outcome after world,
    instrumentation.canRedefine.run asking = (supported, scene.world) →
    Runs (retransform access (some instrumentation) classes) (scene.view thread) asking outcome
      after world →
        if supported = true ∧ classes ≠ [] then
          ∀ next, scene.Takes thread (.retransform classes) next →
            ∃ later events, Alone access instrumentation thread next later ∧
              later.task thread = .idle ∧ later.view thread = after ∧ later.world = world ∧
              later.history thread = events ++ scene.history thread ∧
              Recounts classes (next.view thread) outcome events
        else after = scene.view thread ∧ world = scene.world
  transforms : ∀ request next outcome after world, scene.Takes thread (.transform request) next →
    request.transformer.accept request.loader request.name = true →
      ((transform access request.transformer request.loader request.name).run
        (scene.view thread)).run scene.world = ((outcome, after), world) →
          ∃ later, Alone access instrumentation thread next later ∧ later.task thread = .idle ∧
            later.view thread = after ∧ later.world = world ∧ later.history = scene.history

theorem enacts (hlocked : Locked scene.lock scene.task) :
    scene.Enacts access instrumentation thread where
  exclusively _ _ _ _ _ hdone := runs_exclusively_of_lockIn hlocked.lawful hdone
  shared _ _ _ _ _ hdone := shared_run_of_lockIn hlocked.lawful hdone
  gathers _ _ _ _ _ htakes hruns := exists_alone_of_freshDefinitions hlocked htakes hruns
  retransforms asking supported classes outcome after world hsupport hruns := by
    split
    · rename_i hsupported
      obtain ⟨rfl, hclasses⟩ := hsupported
      exact fun next htakes ↦ exists_alone_of_retransform hlocked htakes hsupport hclasses hruns
    · rename_i hidle
      cases supported with
      | false =>
        cases (Retransformed.unsupported rfl hsupport).runs.symm.trans hruns
        exact ⟨rfl, rfl⟩
      | true =>
        have hclasses : classes = [] := of_not_not fun hne ↦ hidle ⟨rfl, hne⟩
        cases (Retransformed.empty rfl hsupport hclasses).runs.symm.trans hruns
        exact ⟨rfl, rfl⟩
  transforms request next outcome after world htakes haccept hruns := by
    rcases htakes.cases hlocked with ⟨hrefuses, -⟩ | ⟨-, lock, hgains, rfl⟩
    · cases hrefuses.1
    · exact exists_alone_transform haccept hgains hruns

end Scene

end ClassWeaver.Redefinition
