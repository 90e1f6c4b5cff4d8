import ClassWeaver.Proofs.Search.Contents
import ClassWeaver.Proofs.Workspace.Effects

/-!
What looking classes up leaves as it is.

A workspace that classes were looked up in may have another pool and record, and more classes than
before. Whatever relation between workspaces allows that much (`Covers`), looking a class up leads
from each workspace to a related one. The worlds that no question to a loader leaves are not left
either.
-/

set_option autoImplicit false
set_option relaxedAutoImplicit false

namespace ClassWeaver.Workspace

open Search

variable {World Loader α β : Type} {worlds : World → Prop}
  {relation : Workspace Loader → Workspace Loader → Prop}

/-! ### Work between related workspaces -/

/-- Wherever the work is done, the world stays among `worlds` and the workspace at the end is
related to the one at the start. -/
def Relates (worlds : World → Prop) (relation : Workspace Loader → Workspace Loader → Prop)
    (work : Work World Loader α) : Prop :=
  ∀ before, Meets worlds work before fun _ after ↦ relation before after

theorem relates_of_ends {work : FailingWork World Loader α}
    (h : ∀ before, Ends worlds work before (fun _ ↦ relation before) fun _ ↦ relation before) :
    Relates worlds relation work.run := by
  refine fun before ↦ Meets.imp (h before) fun outcome after hend ↦ ?_
  cases outcome with
  | ok answer => exact hend
  | error failure => exact hend

theorem Relates.of_runs {work : FailingWork World Loader α} {outcome : Except Failure α}
    {workspace after : Workspace Loader} {world later : World}
    (h : Relates worlds relation work.run) (hruns : Runs work workspace world outcome after later)
    (hworld : worlds world) : worlds later ∧ relation workspace after := by
  have hend := h workspace world hworld
  rwa [hruns] at hend

/-- A relation that covers all that looking a class up may do to a workspace. -/
structure Covers (relation : Workspace Loader → Workspace Loader → Prop) : Prop where
  refl : ∀ before, relation before before
  trans : ∀ {before between after}, relation before between → relation between after →
    relation before after
  search : ∀ before registry pool poolCount,
    relation before { before with registry, pool, poolCount }
  read : ∀ before cls pool,
    relation before { before with classes := before.classes.push cls, pool }

namespace Covers

variable (hcovers : Covers relation)
include hcovers

theorem relates_pure (answer : α) :
    Relates worlds relation (pure answer : Work World Loader α) :=
  fun before ↦ meets_pure (hcovers.refl before)

theorem relates_ask {query : StateM World α} (hquery : Stays worlds query) :
    Relates worlds relation (liftM query : Work World Loader α) :=
  fun before ↦ meets_ask fun world hworld ↦ ⟨hquery world hworld, hcovers.refl before⟩

theorem relates_bind {work : Work World Loader α} {next : α → Work World Loader β}
    (h : Relates worlds relation work) (hnext : ∀ answer, Relates worlds relation (next answer)) :
    Relates worlds relation (work >>= next) :=
  fun before ↦ meets_bind ((h before).imp fun answer between hbetween ↦
    (hnext answer between).imp fun _ _ ↦ hcovers.trans hbetween)

theorem relates_failing_bind {work : FailingWork World Loader α}
    {next : α → FailingWork World Loader β} (h : Relates worlds relation work.run)
    (hnext : ∀ answer, Relates worlds relation (next answer).run) :
    Relates worlds relation (work >>= next).run := by
  rw [ExceptT.run_bind]
  refine hcovers.relates_bind h fun outcome ↦ ?_
  cases outcome with
  | ok answer => exact hnext answer
  | error failure => exact hcovers.relates_pure _

/-- Work that cannot fail, as a part of work that may. -/
theorem relates_lift {work : Work World Loader α} (h : Relates worlds relation work) :
    Relates worlds relation (liftM work : FailingWork World Loader α).run :=
  hcovers.relates_bind h fun _ ↦ hcovers.relates_pure _

end Covers

/-! ### Looking classes up -/

namespace Covers

variable {access : Access World Loader} (hcovers : Covers relation)
  (hstays : access.StaysIn worlds)
include hcovers hstays

theorem relates_currentPool : Relates worlds relation (currentPool access) := by
  refine fun before ↦ meets_bind (meets_get ?_)
  split
  · exact meets_pure (hcovers.refl before)
  · exact meets_bind (meets_ask fun world hworld ↦ ⟨hstays.newPath _ world hworld,
      meets_bind (meets_set (meets_pure (hcovers.search before _ _ _)))⟩)

theorem relates_addToPath (side : Side) (entry : Entry Loader) :
    Relates worlds relation (addToPath access side entry) := by
  refine hcovers.relates_bind (hcovers.relates_currentPool hstays) fun pool before ↦
    meets_bind (meets_get (meets_bind (meets_ask fun world hworld ↦ ?_)))
  refine ⟨hstays.register side entry _ _ world hworld, ?_⟩
  split
  · exact meets_pure (hcovers.refl before)
  · exact meets_bind (meets_set (meets_pure (hcovers.search before _ _ _)))

theorem relates_readFirst (name : String) (path : List (Entry Loader)) :
    Relates worlds relation (readFirst access name path).run := by
  induction path with
  | nil => exact hcovers.relates_pure _
  | cons entry rest ih =>
    refine hcovers.relates_failing_bind
      (hcovers.relates_lift (hcovers.relates_ask (hstays.findClass entry name))) fun answer ↦ ?_
    split
    · exact hcovers.relates_pure _
    · exact hcovers.relates_pure _
    · exact ih

theorem relates_findInPool (name : String) :
    Relates worlds relation (findInPool access name).run := by
  refine hcovers.relates_failing_bind
    (hcovers.relates_lift (hcovers.relates_currentPool hstays)) fun pool ↦ ?_
  split
  · exact hcovers.relates_pure _
  · refine hcovers.relates_failing_bind (hcovers.relates_readFirst hstays name _) fun answer ↦ ?_
    split
    · exact hcovers.relates_pure _
    · split
      · exact hcovers.relates_pure _
      · refine relates_of_ends fun before ↦ ends_bind (ends_get ?_)
        exact ends_bind (ends_set (ends_pure (hcovers.read before _ _)))

theorem relates_getClass (name : String) : Relates worlds relation (getClass access name).run := by
  refine hcovers.relates_failing_bind (hcovers.relates_findInPool hstays _) fun answer ↦ ?_
  split
  · exact hcovers.relates_pure _
  · exact hcovers.relates_pure _

theorem relates_getClass? (name : String) :
    Relates worlds relation (getClass? access name) := by
  refine hcovers.relates_bind (hcovers.relates_getClass hstays name) fun outcome ↦ ?_
  cases outcome with
  | ok id => exact hcovers.relates_pure _
  | error failure => exact hcovers.relates_pure _

theorem relates_getClassFor (loader : Option Loader) (name : String) :
    Relates worlds relation (getClassFor access loader name).run := by
  cases loader with
  | none => exact hcovers.relates_getClass hstays name
  | some loader =>
    refine hcovers.relates_failing_bind
      (hcovers.relates_lift (hcovers.relates_getClass? hstays name)) fun answer ↦ ?_
    cases answer with
    | some id => exact hcovers.relates_pure _
    | none =>
      have hadd := hcovers.relates_addToPath hstays .back (.loader loader)
      exact hcovers.relates_failing_bind (hcovers.relates_lift hadd) fun _ ↦
        hcovers.relates_getClass hstays name

end Covers

end ClassWeaver.Workspace
