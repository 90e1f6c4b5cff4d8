import ClassWeaver.Proofs.Redefinition.Batches
import ClassWeaver.Proofs.Redefinition.Isolation
import ClassWeaver.Proofs.Workspace.SearchPath

/-!
A batch of classes is submitted as a whole, once, or not at all.

There are six ways for a retransformation to end (`Retransformed`). In one of them the machine is
given a batch, and its answer is the outcome; in the others the machine is given nothing, which any
record of its batches shows (`Records`). However it ends, the calling thread holds the lock as often
as before.
-/

set_option autoImplicit false
set_option relaxedAutoImplicit false

namespace ClassWeaver

open Search Workspace

variable {World Loader Class α Note : Type}

/-! ### Records of what a machine was given -/

/-- A question asked in a world with a note beside it, which stays as it is. -/
def beside (query : StateM World α) : StateM (World × Note) α :=
  modifyGet fun (world, note) ↦
    let (answer, later) := query.run world
    (answer, later, note)

/-- The same loaders in a world with a note beside it. -/
def Search.Access.recording (access : Access World Loader) : Access (World × Note) Loader where
  toFiles := access.toFiles
  findResource loader resource := beside (access.findResource loader resource)
  sameLoader loader other := beside (access.sameLoader loader other)

/-- The same machine in a world with a note beside it, of all batches that the machine was given. -/
def Instrumentation.recording (instrumentation : Instrumentation World Loader Class) :
    Instrumentation (World × List (List (Class × Bytes))) Loader Class where
  className cls := beside (instrumentation.className cls)
  classLoader cls := beside (instrumentation.classLoader cls)
  canRedefine := beside instrumentation.canRedefine
  redefine batch := do
    modify fun (world, batches) ↦ (world, batches ++ [batch])
    beside (instrumentation.redefine batch)

namespace Redefinition

/-- The world tells which batches the machine was given so far. -/
structure Records (access : Access World Loader)
    (instrumentation : Instrumentation World Loader Class)
    (ledger : World → List (List (Class × Bytes))) : Prop where
  loaders : ∀ batches, access.StaysIn (ledger · = batches)
  questions : ∀ batches, instrumentation.StaysIn (ledger · = batches)
  redefine : ∀ batch world,
    ledger ((instrumentation.redefine batch).run world).2 = ledger world ++ [batch]

theorem stays_beside (query : StateM World α) (note : Note) :
    Stays (fun world : World × Note ↦ world.2 = note) (beside query) :=
  fun _ hworld ↦ hworld

/-- Every machine can be recorded. -/
theorem records_recording (access : Access World Loader)
    (instrumentation : Instrumentation World Loader Class) :
    Records access.recording instrumentation.recording Prod.snd where
  loaders batches := ⟨fun _ _ ↦ stays_beside _ batches, fun _ _ ↦ stays_beside _ batches⟩
  questions batches :=
    ⟨fun _ ↦ stays_beside _ batches, fun _ ↦ stays_beside _ batches, stays_beside _ batches⟩
  redefine _ _ := rfl

/-- A note beside the world does not matter for what entries have. -/
theorem contents_recording (access : Access World Loader) (world : World × Note) :
    (access.recording : Access (World × Note) Loader).contents world =
      access.contents world.1 := by
  funext entry name
  cases entry with
  | directory path => rfl
  | archive path => rfl
  | loader handle => rfl

/-! ### Gathering under the lock -/

/-- The workspace in which a batch is read: locked, and without a pool. -/
def opened (workspace : Workspace Loader) (locked : Lock.Holds) : Workspace Loader :=
  { workspace with holds := locked }.renewed true

section

variable {access : Access World Loader} {instrumentation : Instrumentation World Loader Class}
  {classes : List Class} {workspace after : Workspace Loader} {world asked later : World}
  {locked : Lock.Holds}

theorem changeHolds_run (change : Lock.Holds → Except StateError Lock.Holds)
    (workspace : Workspace Loader) (world : World) :
    ((changeHolds change).run.run workspace).run world =
      match change workspace.holds with
      | .ok holds => ((.ok (), { workspace with holds }), world)
      | .error error => ((.error (.illegalState error), workspace), world) := by
  rw [changeHolds, failing_bind_run]
  change ((match change workspace.holds with
    | .ok holds => set { workspace with holds }
    | .error error => throw (.illegalState error) : FailingWork World Loader Unit).run.run
      workspace).run world = _
  cases change workspace.holds with
  | ok holds => rfl
  | error error => rfl

/-- The lock is given back as it was taken, if the work leaves it alone. -/
theorem runs_exclusively {work : Work World Loader α} {answer : α}
    (hlock : workspace.holds.lockExclusive = .ok locked)
    (hwork : (work.run { workspace with holds := locked }).run world = ((answer, after), later))
    (hholds : after.holds = locked) :
    Runs (exclusively work) workspace world (.ok answer)
      { after with holds := workspace.holds } later := by
  have hlocked : Runs lock workspace world (.ok ()) { workspace with holds := locked } world := by
    rw [Runs, lock, changeHolds_run, hlock]
  have hreleased : ((release Lock.Holds.unlockExclusive).run after).run later =
      (((), { after with holds := workspace.holds }), later) := by
    change (((), match after.holds.unlockExclusive with
      | .ok holds => { after with holds }
      | .error _ => after), later) = _
    rw [hholds, Lock.Holds.unlockExclusive_of_lockExclusive hlock]
  exact hlocked.bind ((runs_lift hwork).bind ((runs_lift hreleased).bind rfl))

theorem runs_exclusively_of_refused {work : Work World Loader α} {error : StateError}
    (hlock : workspace.holds.lockExclusive = .error error) :
    Runs (exclusively work) workspace world (.error (.illegalState error)) workspace world := by
  have hrefused : Runs lock workspace world (.error (.illegalState error)) workspace world := by
    rw [Runs, lock, changeHolds_run, hlock]
  exact hrefused.bind_of_error

theorem runs_freshDefinitions {outcome : Except Failure (List (Class × Bytes))}
    (hlock : workspace.holds.lockExclusive = .ok locked)
    (hread : Runs (definitions access instrumentation 0 classes) (opened workspace locked) world
      outcome after later) :
    Runs (freshDefinitions access instrumentation classes) workspace world outcome
      { after with holds := workspace.holds } later := by
  have hgather : ((gather access instrumentation classes).run
      { workspace with holds := locked }).run world = ((outcome, after), later) := hread
  refine (runs_exclusively hlock hgather (sameHolds_definitions hread)).bind ?_
  cases outcome with
  | ok batch => rfl
  | error failure => rfl

theorem runs_retransform {outcome : Except Failure Unit}
    (hsupport : instrumentation.canRedefine.run world = (true, asked)) (hclasses : classes ≠ [])
    (h : Runs (freshDefinitions access instrumentation classes >>= fun batch ↦
      ask (instrumentation.redefine batch)) workspace asked outcome after later) :
    Runs (retransform access (some instrumentation) classes) workspace world outcome after
      later := by
  refine (runs_query hsupport).bind ?_
  rw [if_pos rfl, if_neg (mt List.isEmpty_iff.mp hclasses)]
  exact h

end

/-! ### How a retransformation ends -/

/-- How a retransformation can end: what it comes to, what it leaves behind, and which batches were
submitted. As long as nothing was read, the workspace is the one that it started in. -/
inductive Retransformed (access : Access World Loader)
    (installed : Option (Instrumentation World Loader Class)) (classes : List Class)
    (workspace : Workspace Loader) (world : World) :
    Except Failure Unit → Workspace Loader → World → List (List (Class × Bytes)) → Prop
  | uninstalled (hinstalled : installed = none) :
    Retransformed access installed classes workspace world
      (.error (.illegalState .notInstrumented)) workspace world []
  | unsupported {instrumentation later} (hinstalled : installed = some instrumentation)
    (hsupport : instrumentation.canRedefine.run world = (false, later)) :
    Retransformed access installed classes workspace world
      (.error (.illegalState .redefinitionUnsupported)) workspace later []
  | empty {instrumentation later} (hinstalled : installed = some instrumentation)
    (hsupport : instrumentation.canRedefine.run world = (true, later)) (hclasses : classes = []) :
    Retransformed access installed classes workspace world (.ok ()) workspace later []
  | refused {instrumentation later error} (hinstalled : installed = some instrumentation)
    (hsupport : instrumentation.canRedefine.run world = (true, later)) (hclasses : classes ≠ [])
    (hlock : workspace.holds.lockExclusive = .error error) :
    Retransformed access installed classes workspace world (.error (.illegalState error)) workspace
      later []
  /-- The classes in front of `cls` are read, and `cls` is not. -/
  | missed {instrumentation asked locked front cls back batch between middle label cause after
      later failure} (hinstalled : installed = some instrumentation)
    (hsupport : instrumentation.canRedefine.run world = (true, asked))
    (hlock : workspace.holds.lockExclusive = .ok locked) (hclasses : classes = front ++ cls :: back)
    (hfront : Gathers access instrumentation front (opened workspace locked) asked batch between
      middle)
    (hmisses : Misses access instrumentation front.length cls between middle label cause after
      later) (hfailure : failure = .retransform label cause) (hkind : failure.kind = cause.kind) :
    Retransformed access installed classes workspace world (.error failure)
      { after with holds := workspace.holds } later []
  | submitted {instrumentation asked locked batch after gathered outcome later}
    (hinstalled : installed = some instrumentation)
    (hsupport : instrumentation.canRedefine.run world = (true, asked)) (hclasses : classes ≠ [])
    (hlock : workspace.holds.lockExclusive = .ok locked)
    (hbatch : Gathers access instrumentation classes (opened workspace locked) asked batch after
      gathered)
    (hanswer : (instrumentation.redefine batch).run gathered = (outcome, later)) :
    Retransformed access installed classes workspace world outcome
      { after with holds := workspace.holds } later [batch]

section

variable {access : Access World Loader} {instrumentation : Instrumentation World Loader Class}
  {installed : Option (Instrumentation World Loader Class)} {classes : List Class}
  {workspace after : Workspace Loader} {world later : World} {outcome : Except Failure Unit}
  {submitted : List (List (Class × Bytes))}

/-- What is said of an end is what happens. -/
theorem Retransformed.runs
    (h : Retransformed access installed classes workspace world outcome after later submitted) :
    Runs (retransform access installed classes) workspace world outcome after later := by
  cases h with
  | uninstalled hinstalled =>
    subst hinstalled
    rfl
  | unsupported hinstalled hsupport =>
    subst hinstalled
    exact (runs_query hsupport).bind rfl
  | empty hinstalled hsupport hclasses =>
    subst hinstalled hclasses
    exact (runs_query hsupport).bind rfl
  | refused hinstalled hsupport hclasses hlock =>
    subst hinstalled
    exact runs_retransform hsupport hclasses
      (runs_exclusively_of_refused hlock).bind_of_error.bind_of_error
  | missed hinstalled hsupport hlock hclasses hfront hmisses hfailure =>
    subst hinstalled hclasses hfailure
    exact runs_retransform hsupport (List.append_ne_nil_of_right_ne_nil _ (List.cons_ne_nil _ _))
      (runs_freshDefinitions hlock
        (hfront.runs_of_misses hmisses _ (Nat.zero_add _))).bind_of_error
  | submitted hinstalled hsupport hclasses hlock hbatch hanswer =>
    subst hinstalled
    exact runs_retransform hsupport hclasses
      ((runs_freshDefinitions hlock (hbatch.runs 0)).bind (runs_ask hanswer))

theorem Retransformed.sameHolds
    (h : Retransformed access installed classes workspace world outcome after later submitted) :
    SameHolds workspace after := by
  cases h <;> rfl

/-- At most one batch is submitted, which is not empty and has all classes in order. -/
theorem Retransformed.submitted_cases
    (h : Retransformed access installed classes workspace world outcome after later submitted) :
    submitted = [] ∨
      ∃ batch, submitted = [batch] ∧ batch ≠ [] ∧ batch.map Prod.fst = classes := by
  cases h with
  | submitted hinstalled hsupport hclasses hlock hbatch hanswer =>
    refine .inr ⟨_, rfl, ?_, hbatch.map_fst⟩
    rintro rfl
    exact hclasses hbatch.map_fst.symm
  | _ => exact .inl rfl

/-- Whatever keeps a record of the batches records exactly those. -/
theorem Retransformed.recorded
    (h : Retransformed access installed classes workspace world outcome after later submitted)
    {ledger : World → List (List (Class × Bytes))}
    (hrecords : ∀ instrumentation ∈ installed, Records access instrumentation ledger) :
    ledger later = ledger world ++ submitted := by
  have hasked {instrumentation : Instrumentation World Loader Class} {supported : Bool}
      {asked : World} (hinstalled : installed = some instrumentation)
      (hsupport : instrumentation.canRedefine.run world = (supported, asked)) :
      ledger asked = ledger world := by
    have hstays := ((hrecords _ hinstalled).questions _).canRedefine world rfl
    rwa [hsupport] at hstays
  cases h with
  | uninstalled hinstalled => exact (List.append_nil _).symm
  | unsupported hinstalled hsupport =>
    exact (hasked hinstalled hsupport).trans (List.append_nil _).symm
  | empty hinstalled hsupport hclasses =>
    exact (hasked hinstalled hsupport).trans (List.append_nil _).symm
  | refused hinstalled hsupport hclasses hlock =>
    exact (hasked hinstalled hsupport).trans (List.append_nil _).symm
  | missed hinstalled hsupport hlock hclasses hfront hmisses hfailure =>
    have hrecord := hrecords _ hinstalled
    have hmiddle := (hfront.stays (hrecord.loaders _) (hrecord.questions _)
      (hasked hinstalled hsupport)).1
    have hlater := (hmisses.stays (hrecord.loaders _) (hrecord.questions _) hmiddle).1
    exact hlater.trans (List.append_nil _).symm
  | submitted hinstalled hsupport hclasses hlock hbatch hanswer =>
    have hrecord := hrecords _ hinstalled
    have hgathered := (hbatch.stays (hrecord.loaders _) (hrecord.questions _)
      (hasked hinstalled hsupport)).1
    have hlater : _ = later := congrArg Prod.snd hanswer
    rw [← hlater, hrecord.redefine, hgathered]

variable (access installed classes workspace world) in
/-- Every retransformation comes to an end in one of those ways. -/
theorem exists_retransformed : ∃ outcome after later submitted,
    Retransformed access installed classes workspace world outcome after later submitted := by
  cases hinstalled : installed with
  | none => exact ⟨_, _, _, _, .uninstalled rfl⟩
  | some instrumentation =>
    rcases hsupport : instrumentation.canRedefine.run world with ⟨_ | _, asked⟩
    · exact ⟨_, _, _, _, .unsupported rfl hsupport⟩
    by_cases hclasses : classes = []
    · exact ⟨_, _, _, _, .empty rfl hsupport hclasses⟩
    cases hlock : workspace.holds.lockExclusive with
    | error error => exact ⟨_, _, _, _, .refused rfl hsupport hclasses hlock⟩
    | ok locked =>
      rcases gathers_or_misses access instrumentation 0 classes (opened workspace locked) asked with
        ⟨batch, after, gathered, hbatch⟩ |
        ⟨front, cls, back, batch, between, middle, label, cause, after, later, hsplit, hfront,
          hmisses⟩
      · exact ⟨_, _, _, _, .submitted rfl hsupport hclasses hlock hbatch rfl⟩
      · rw [Nat.zero_add] at hmisses
        exact ⟨_, _, _, _, .missed rfl hsupport hlock hsplit hfront hmisses rfl rfl⟩

/-- Retransforming is all or nothing. It ends in one of the ways that `Retransformed` tells, and
that is what it comes to then. At most one batch is submitted, with one definition for each class
in order, as any record of the batches shows; and the calling thread holds the lock as before. -/
theorem retransform_allOrNothing (access : Access World Loader)
    (installed : Option (Instrumentation World Loader Class)) (classes : List Class)
    (workspace : Workspace Loader) (world : World) :
    (∃ outcome after later submitted,
      Retransformed access installed classes workspace world outcome after later submitted) ∧
    ∀ outcome after later submitted,
      Retransformed access installed classes workspace world outcome after later submitted →
        Runs (retransform access installed classes) workspace world outcome after later ∧
        (submitted = [] ∨
          ∃ batch, submitted = [batch] ∧ batch ≠ [] ∧ batch.map Prod.fst = classes) ∧
        (∀ ledger : World → List (List (Class × Bytes)),
          (∀ instrumentation ∈ installed, Records access instrumentation ledger) →
            ledger later = ledger world ++ submitted) ∧
        after.holds = workspace.holds := by
  refine ⟨exists_retransformed access installed classes workspace world, ?_⟩
  intro outcome after later submitted h
  exact ⟨h.runs, h.submitted_cases, fun ledger ↦ h.recorded, h.sameHolds⟩

end

/-! ### A recorded rehearsal -/

/-- A class that the machine has no name for. -/
def nameless : RehearsedClass :=
  ⟨.error (.illegalState .detached), .ok none⟩

/-- A thread that holds the lock in both modes is about to retransform. -/
def prepared : Workspace MemoryLoader :=
  { Workspace.ofSystem [.loader ⟨"application", none, [("A.class", emptyClass)], false⟩] with
    holds := ⟨1, 2⟩ }

/-- One class is submitted, but not together with a class that has no name. -/
theorem retransform_allOrNothing_rehearsed :
    let access := (Rehearsal.access .none).recording
    let machine := (Rehearsal.instrumentation true none).recording
    (∃ after later, Runs (retransform access (some machine) [upgraded]) prepared (.start, [])
      (.ok ()) after later ∧ later.2 = [[(upgraded, emptyClass)]] ∧ after.holds = ⟨1, 2⟩) ∧
      ∃ after later, Runs (retransform access (some machine) [upgraded, nameless]) prepared
        (.start, []) (.error (.retransform "#1" (.illegalState .detached))) after later ∧
          later.2 = [] ∧ after.holds = ⟨1, 2⟩ := by
  intro access machine
  have hrecords : ∀ instrumentation ∈ some machine, Records access instrumentation Prod.snd := by
    rintro _ ⟨⟩
    exact records_recording _ _
  have hread : Obtains access machine upgraded (opened prepared ⟨2, 2⟩) (.start, []) emptyClass _
      _ := .intro rfl rfl rfl
  constructor
  · obtain ⟨hruns, -, hledger, hholds⟩ :=
      (retransform_allOrNothing access (some machine) [upgraded] prepared (.start, [])).2 _ _ _ _
        (.submitted rfl rfl nofun rfl (.cons hread .nil) rfl)
    exact ⟨_, _, hruns, hledger _ hrecords, hholds⟩
  · have hsplit : [upgraded, nameless] = [upgraded] ++ nameless :: [] := rfl
    obtain ⟨hruns, -, hledger, hholds⟩ :=
      (retransform_allOrNothing access (some machine) [upgraded, nameless] prepared
        (.start, [])).2 _ _ _ _
        (.missed rfl rfl rfl hsplit (.cons hread .nil) (.name rfl) rfl rfl)
    exact ⟨_, _, hruns, hledger _ hrecords, hholds⟩

end Redefinition

end ClassWeaver
