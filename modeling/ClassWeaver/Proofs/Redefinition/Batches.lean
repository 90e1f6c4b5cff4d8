import ClassWeaver.Proofs.Workspace.Searching
import ClassWeaver.Redefinition

/-!
How the definitions of a batch of classes are read.

A class has a name, a loader and bytes, which are asked for in this order (`Obtains`), and any of
the three may be missing (`Misses`). Either all classes of a batch are read, one after the other
(`Gathers`), or the first one that is not ends it. Reading does not touch the lock.
-/

set_option autoImplicit false
set_option relaxedAutoImplicit false

namespace ClassWeaver

open Search Workspace

/-- No question about the machine or one of its classes leaves `worlds`. -/
structure Instrumentation.StaysIn {World Loader Class : Type}
    (instrumentation : Instrumentation World Loader Class) (worlds : World → Prop) : Prop where
  className : ∀ cls, Stays worlds (instrumentation.className cls)
  classLoader : ∀ cls, Stays worlds (instrumentation.classLoader cls)
  canRedefine : Stays worlds instrumentation.canRedefine

theorem Instrumentation.staysIn_all {World Loader Class : Type}
    (instrumentation : Instrumentation World Loader Class) :
    instrumentation.StaysIn fun _ ↦ True :=
  ⟨fun _ _ _ ↦ trivial, fun _ _ _ ↦ trivial, fun _ _ ↦ trivial⟩

namespace Redefinition

variable {World Loader Class α : Type} {access : Access World Loader}
  {instrumentation : Instrumentation World Loader Class}

/-! ### One class -/

/-- The bytes of the class called `name`, which `loader` defines: what is left of `sourceBytes` when
the loader is known. -/
def bytesOf (access : Access World Loader) (loader : Option Loader) (name : String) :
    FailingWork World Loader Bytes := do
  let id ← getClassFor access loader name
  edit id do
    let bytes ← ClassEdit.serialize
    ClassEdit.defrost
    return bytes

section

variable (access instrumentation)

/-- The machine tells the name and the loader of the class, and its bytes are read. -/
inductive Obtains (cls : Class) : Workspace Loader → World → Bytes → Workspace Loader → World → Prop
  | intro {workspace after world named told later name loader bytes}
    (hname : (instrumentation.className cls).run world = (.ok name, named))
    (hloader : (instrumentation.classLoader cls).run named = (.ok loader, told))
    (hbytes : Runs (bytesOf access loader name) workspace told (.ok bytes) after later) :
    Obtains cls workspace world bytes after later

/-- The first thing that cannot be had of the class, why, and what the class is called then: as long
as it has no name, it goes by its number. -/
inductive Misses (index : Nat) (cls : Class) :
    Workspace Loader → World → String → Failure → Workspace Loader → World → Prop
  | name {workspace world later cause}
    (hname : (instrumentation.className cls).run world = (.error cause, later)) :
    Misses index cls workspace world ("#" ++ toString index) cause workspace later
  | loader {workspace world named later name cause}
    (hname : (instrumentation.className cls).run world = (.ok name, named))
    (hloader : (instrumentation.classLoader cls).run named = (.error cause, later)) :
    Misses index cls workspace world name cause workspace later
  | bytes {workspace after world named told later name loader cause}
    (hname : (instrumentation.className cls).run world = (.ok name, named))
    (hloader : (instrumentation.classLoader cls).run named = (.ok loader, told))
    (hbytes : Runs (bytesOf access loader name) workspace told (.error cause) after later) :
    Misses index cls workspace world name cause after later

/-- All classes of a list are read, one after the other. -/
inductive Gathers : List Class → Workspace Loader → World → List (Class × Bytes) →
    Workspace Loader → World → Prop
  | nil {workspace world} : Gathers [] workspace world [] workspace world
  | cons {cls rest workspace world bytes between middle batch after later}
    (hfirst : Obtains access instrumentation cls workspace world bytes between middle)
    (hrest : Gathers rest between middle batch after later) :
    Gathers (cls :: rest) workspace world ((cls, bytes) :: batch) after later

end

variable {worlds : World → Prop} {workspace between after : Workspace Loader}
  {world named middle later : World} {cls : Class} {bytes : Bytes} {name label : String}
  {cause : Failure} {index : Nat}

theorem runs_ask {query : StateM World (Except Failure α)} {outcome : Except Failure α}
    (h : query.run world = (outcome, later)) :
    Runs (ask query) workspace world outcome workspace later := by
  refine (runs_query h).bind ?_
  cases outcome with
  | ok answer => rfl
  | error failure => rfl

theorem runs_about {work : FailingWork World Loader α} {outcome : Except Failure α}
    (name : String) (h : Runs work workspace world outcome after later) :
    Runs (about name work) workspace world (outcome.mapError (.retransform name)) after later := by
  rw [Runs, about, ExceptT.run_tryCatch, StateT.run_bind, StateT.run_bind, h]
  cases outcome with
  | ok answer => rfl
  | error failure => rfl

/-- What becomes of a class that has a name. -/
theorem runs_definition {outcome : Except Failure Bytes}
    (hname : (instrumentation.className cls).run world = (.ok name, named))
    (hsource : Runs (sourceBytes access instrumentation cls name) workspace named outcome after
      later) (index : Nat) :
    Runs (definition access instrumentation index cls) workspace world
      ((outcome.mapError (.retransform name)).map (cls, ·)) after later := by
  refine (runs_about _ (runs_ask hname)).bind ?_
  cases outcome with
  | ok bytes => exact (runs_about name hsource).bind rfl
  | error cause => exact (runs_about name hsource).bind_of_error

theorem Obtains.runs
    (h : Obtains access instrumentation cls workspace world bytes after later) (index : Nat) :
    Runs (definition access instrumentation index cls) workspace world (.ok (cls, bytes)) after
      later := by
  obtain ⟨hname, hloader, hbytes⟩ := h
  have hsource : Runs (sourceBytes access instrumentation cls _) workspace _ (.ok bytes) after
      later := (runs_ask hloader).bind hbytes
  exact runs_definition hname hsource index

theorem Misses.runs
    (h : Misses access instrumentation index cls workspace world label cause after later) :
    Runs (definition access instrumentation index cls) workspace world
      (.error (.retransform label cause)) after later := by
  cases h with
  | name hname => exact (runs_about _ (runs_ask hname)).bind_of_error
  | loader hname hloader =>
    have hsource : Runs (sourceBytes access instrumentation cls label) workspace _ (.error cause)
        workspace later := (runs_ask hloader).bind_of_error
    exact runs_definition hname hsource index
  | bytes hname hloader hbytes =>
    have hsource : Runs (sourceBytes access instrumentation cls label) workspace _ (.error cause)
        after later := (runs_ask hloader).bind hbytes
    exact runs_definition hname hsource index

variable (access instrumentation) in
theorem obtains_or_misses (index : Nat) (cls : Class) (workspace : Workspace Loader)
    (world : World) :
    (∃ bytes after later, Obtains access instrumentation cls workspace world bytes after later) ∨
      ∃ label cause after later,
        Misses access instrumentation index cls workspace world label cause after later := by
  rcases hname : (instrumentation.className cls).run world with ⟨cause | name, named⟩
  · exact .inr ⟨_, _, _, _, .name hname⟩
  rcases hloader : (instrumentation.classLoader cls).run named with ⟨cause | loader, told⟩
  · exact .inr ⟨_, _, _, _, .loader hname hloader⟩
  obtain ⟨cause | bytes, after, later, hbytes⟩ :=
    exists_runs (bytesOf access loader name) workspace told
  · exact .inr ⟨_, _, _, _, .bytes hname hloader hbytes⟩
  · exact .inl ⟨_, _, _, .intro hname hloader hbytes⟩

/-! ### A batch of classes -/

theorem runs_definitions_cons {entry : Class × Bytes} {rest : List Class}
    {outcome : Except Failure (List (Class × Bytes))}
    (hfirst : Runs (definition access instrumentation index cls) workspace world (.ok entry) between
      middle)
    (hrest : Runs (definitions access instrumentation (index + 1) rest) between middle outcome after
      later) :
    Runs (definitions access instrumentation index (cls :: rest)) workspace world
      (outcome.map (entry :: ·)) after later := by
  refine hfirst.bind ?_
  cases outcome with
  | ok batch => exact hrest.bind rfl
  | error failure => exact hrest.bind_of_error

theorem runs_definitions_cons_of_error
    (hfirst : Runs (definition access instrumentation index cls) workspace world (.error cause)
      after later) (rest : List Class) :
    Runs (definitions access instrumentation index (cls :: rest)) workspace world (.error cause)
      after later :=
  hfirst.bind_of_error

section

variable {classes front : List Class} {batch : List (Class × Bytes)}

/-- There is one definition for each class, in the same order. -/
theorem Gathers.map_fst
    (h : Gathers access instrumentation classes workspace world batch after later) :
    batch.map Prod.fst = classes := by
  induction h with
  | nil => rfl
  | cons hfirst hrest ih => exact congrArg (_ :: ·) ih

theorem Gathers.runs
    (h : Gathers access instrumentation classes workspace world batch after later) (index : Nat) :
    Runs (definitions access instrumentation index classes) workspace world (.ok batch) after
      later := by
  induction h generalizing index with
  | nil => rfl
  | cons hfirst hrest ih => exact runs_definitions_cons (hfirst.runs index) (ih (index + 1))

theorem Gathers.runs_of_misses
    (h : Gathers access instrumentation front workspace world batch between middle)
    (hmisses : Misses access instrumentation index cls between middle label cause after later)
    (back : List Class) {start : Nat} (hindex : start + front.length = index) :
    Runs (definitions access instrumentation start (front ++ cls :: back)) workspace world
      (.error (.retransform label cause)) after later := by
  induction h generalizing start with
  | nil =>
    obtain rfl : start = index := hindex
    exact runs_definitions_cons_of_error hmisses.runs back
  | cons hfirst hrest ih =>
    rw [List.length_cons, Nat.add_comm _ 1, ← Nat.add_assoc] at hindex
    exact runs_definitions_cons (hfirst.runs start) (ih hmisses hindex)

end

variable (access instrumentation) in
/-- Either all classes are read, or there is a first one that is not. -/
theorem gathers_or_misses (start : Nat) (classes : List Class) (workspace : Workspace Loader)
    (world : World) :
    (∃ batch after later,
      Gathers access instrumentation classes workspace world batch after later) ∨
      ∃ front cls back batch between middle label cause after later,
        classes = front ++ cls :: back ∧
          Gathers access instrumentation front workspace world batch between middle ∧
          Misses access instrumentation (start + front.length) cls between middle label cause after
            later := by
  induction classes generalizing start workspace world with
  | nil => exact .inl ⟨_, _, _, .nil⟩
  | cons cls rest ih =>
    rcases obtains_or_misses access instrumentation start cls workspace world with
      ⟨bytes, between, middle, hfirst⟩ | ⟨label, cause, after, later, hmisses⟩
    · rcases ih (start + 1) between middle with
        ⟨batch, after, later, hrest⟩ |
        ⟨front, missed, back, batch, last, lastWorld, label, cause, after, later, rfl, hfront,
          hmisses⟩
      · exact .inl ⟨_, _, _, .cons hfirst hrest⟩
      · have hlength : start + 1 + front.length = start + (cls :: front).length := by
          rw [List.length_cons, Nat.add_assoc, Nat.add_comm 1]
        exact .inr ⟨_, _, _, _, _, _, _, _, _, _, rfl, .cons hfirst hfront, hlength ▸ hmisses⟩
    · exact .inr ⟨[], cls, rest, _, _, _, _, _, _, _, rfl, .nil, hmisses⟩

/-! ### What reading leaves alone -/

/-- The calling thread holds the lock as often afterwards as before. -/
def SameHolds (before after : Workspace Loader) : Prop :=
  after.holds = before.holds

theorem covers_sameHolds : Covers (SameHolds : Workspace Loader → Workspace Loader → Prop) where
  refl _ := rfl
  trans h hlater := Eq.trans hlater h
  search _ _ _ _ := rfl
  read _ _ _ := rfl

theorem relates_edit (id : ClassId) (change : ClassEdit Id α) :
    Relates worlds SameHolds (edit id change : FailingWork World Loader α).run := by
  refine relates_of_ends fun before ↦ ends_bind (ends_get ?_)
  split
  · exact ends_throw rfl
  · refine ends_bind (ends_set ?_)
    split
    · exact ends_pure rfl
    · exact ends_throw rfl

section

variable (haccess : access.StaysIn worlds) (hmachine : instrumentation.StaysIn worlds)
include haccess

theorem relates_bytesOf (loader : Option Loader) (name : String) :
    Relates worlds SameHolds (bytesOf access loader name).run :=
  covers_sameHolds.relates_failing_bind (covers_sameHolds.relates_getClassFor haccess loader name)
    fun id ↦ relates_edit id _

variable {classes : List Class} {batch : List (Class × Bytes)} (hworld : worlds world)
include hmachine hworld

theorem Obtains.stays
    (h : Obtains access instrumentation cls workspace world bytes after later) :
    worlds later ∧ SameHolds workspace after := by
  obtain ⟨hname, hloader, hbytes⟩ := h
  have hnamed := hmachine.className cls world hworld
  rw [hname] at hnamed
  have htold := hmachine.classLoader cls _ hnamed
  rw [hloader] at htold
  exact (relates_bytesOf haccess _ _).of_runs hbytes htold

theorem Misses.stays
    (h : Misses access instrumentation index cls workspace world label cause after later) :
    worlds later ∧ SameHolds workspace after := by
  have hnamed := hmachine.className cls world hworld
  cases h with
  | name hname =>
    rw [hname] at hnamed
    exact ⟨hnamed, rfl⟩
  | loader hname hloader =>
    rw [hname] at hnamed
    have htold := hmachine.classLoader cls _ hnamed
    rw [hloader] at htold
    exact ⟨htold, rfl⟩
  | bytes hname hloader hbytes =>
    rw [hname] at hnamed
    have htold := hmachine.classLoader cls _ hnamed
    rw [hloader] at htold
    exact (relates_bytesOf haccess _ _).of_runs hbytes htold

theorem Gathers.stays
    (h : Gathers access instrumentation classes workspace world batch after later) :
    worlds later ∧ SameHolds workspace after := by
  induction h with
  | nil => exact ⟨hworld, rfl⟩
  | cons hfirst hrest ih =>
    obtain ⟨hmiddle, hbetween⟩ := hfirst.stays haccess hmachine hworld
    obtain ⟨hlater, hafter⟩ := ih hmiddle
    exact ⟨hlater, covers_sameHolds.trans hbetween hafter⟩

end

theorem sameHolds_getClassFor {loader : Option Loader} {outcome : Except Failure ClassId}
    (h : Runs (getClassFor access loader name) workspace world outcome after later) :
    SameHolds workspace after :=
  ((covers_sameHolds.relates_getClassFor access.staysIn_all loader name).of_runs h trivial).2

theorem sameHolds_edit {id : ClassId} {change : ClassEdit Id α} {outcome : Except Failure α}
    (h : Runs (edit id change) workspace world outcome after later) :
    SameHolds workspace after := by
  have hedit : Relates (fun _ ↦ True) SameHolds
    (edit id change : FailingWork World Loader α).run := relates_edit id change
  exact (hedit.of_runs h trivial).2

theorem sameHolds_definition {outcome : Except Failure (Class × Bytes)}
    (h : Runs (definition access instrumentation index cls) workspace world outcome after later) :
    SameHolds workspace after := by
  rcases obtains_or_misses access instrumentation index cls workspace world with
    ⟨bytes, last, lastWorld, hobtains⟩ | ⟨label, cause, last, lastWorld, hmisses⟩
  · obtain rfl : last = after := congrArg (·.1.2) ((hobtains.runs index).symm.trans h)
    exact (hobtains.stays access.staysIn_all instrumentation.staysIn_all trivial).2
  · obtain rfl : last = after := congrArg (·.1.2) (hmisses.runs.symm.trans h)
    exact (hmisses.stays access.staysIn_all instrumentation.staysIn_all trivial).2

theorem sameHolds_definitions {classes : List Class}
    {outcome : Except Failure (List (Class × Bytes))}
    (h : Runs (definitions access instrumentation index classes) workspace world outcome after
      later) : SameHolds workspace after := by
  rcases gathers_or_misses access instrumentation index classes workspace world with
    ⟨batch, last, lastWorld, hgathers⟩ |
    ⟨front, cls, back, batch, between, middle, label, cause, last, lastWorld, rfl, hfront, hmisses⟩
  · obtain rfl : last = after := congrArg (·.1.2) ((hgathers.runs index).symm.trans h)
    exact (hgathers.stays access.staysIn_all instrumentation.staysIn_all trivial).2
  · obtain rfl : last = after :=
      congrArg (·.1.2) ((hfront.runs_of_misses hmisses back rfl).symm.trans h)
    exact covers_sameHolds.trans
      (hfront.stays access.staysIn_all instrumentation.staysIn_all trivial).2
      (hmisses.stays access.staysIn_all instrumentation.staysIn_all trivial).2

end Redefinition

end ClassWeaver
