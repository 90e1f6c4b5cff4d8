import ClassWeaver.Proofs.Search.Registration
import ClassWeaver.Proofs.Workspace.Effects

/-!
The search path of a pool and the record that it can be built from.

Each way to change the search path changes the record and the pool alike, so that at any time the
pool has the path that a new pool would get (`InOrder`). The lemmas below say of each of them what
it answers, and what the workspace is like afterwards.
-/

set_option autoImplicit false
set_option relaxedAutoImplicit false

namespace ClassWeaver.Workspace

open Search

variable {World Loader : Type} {access : Access World Loader} {worlds : World → Prop}
  {alike : Entry Loader → Entry Loader → Bool} {workspace after : Workspace Loader}
  {pool : ClassPool Loader} {side : Side} {entry : Entry Loader}

/-- A workspace whose record a new pool can be given: nothing is recorded twice. -/
structure Replayable (alike : Entry Loader → Entry Loader → Bool) (workspace : Workspace Loader) :
    Prop where
  distinct : workspace.registry.Distinct alike
  /-- What is recorded while there is no pool is meant for the next one. -/
  kept : workspace.pool = none →
    workspace.registry.preserve = true ∨ ∀ side, workspace.registry.recorded side = []

/-- A workspace whose pool and record are in keeping. -/
structure InOrder (alike : Entry Loader → Entry Loader → Bool) (workspace : Workspace Loader) :
    Prop where
  distinct : workspace.registry.Distinct alike
  path : ∀ pool, workspace.pool = some pool → pool.path = workspace.registry.wholePath
  /-- What is recorded while there is no pool is meant for the next one. -/
  kept : workspace.pool = none →
    workspace.registry.preserve = true ∨ ∀ side, workspace.registry.recorded side = []
  numbered : ∀ pool, workspace.pool = some pool → pool.number < workspace.poolCount

theorem InOrder.replayable (h : workspace.InOrder alike) : workspace.Replayable alike :=
  ⟨h.distinct, h.kept⟩

theorem inOrder_ofSystem (system : List (Entry Loader)) :
    (ofSystem system).InOrder alike where
  distinct side := by cases side <;> exact List.Pairwise.nil
  path := nofun
  kept _ := .inr fun side ↦ by cases side <;> rfl
  numbered := nofun

/-! ### The pool -/

/-- The pool that is built when there is none. -/
def nextPool (workspace : Workspace Loader) : ClassPool Loader where
  number := workspace.poolCount
  path := workspace.registry.wholePath
  classes := []

/-- What asking for the pool gives: the one that there is, or else a new one. -/
inductive Provides (workspace : Workspace Loader) : ClassPool Loader → Workspace Loader → Prop
  | old {pool : ClassPool Loader} (hpool : workspace.pool = some pool) :
    Provides workspace pool workspace
  | new (hpool : workspace.pool = none) : Provides workspace workspace.nextPool
    { workspace with pool := some workspace.nextPool, poolCount := workspace.poolCount + 1 }

namespace Provides

theorem pool_eq (h : workspace.Provides pool after) : after.pool = some pool := by
  cases h with
  | old hpool => exact hpool
  | new hpool => rfl

theorem registry_eq (h : workspace.Provides pool after) : after.registry = workspace.registry := by
  cases h with
  | old hpool => rfl
  | new hpool => rfl

/-- A pool that there is is the one that is given. -/
theorem of_pool {own : ClassPool Loader} (h : workspace.Provides pool after)
    (hpool : workspace.pool = some own) : pool = own ∧ after = workspace := by
  cases h with
  | old hold => exact ⟨Option.some.inj (hold.symm.trans hpool), rfl⟩
  | new hnone => cases hpool.symm.trans hnone

theorem replayable (h : workspace.Provides pool after) (hreplayable : workspace.Replayable alike) :
    after.Replayable alike := by
  cases h with
  | old hpool => exact hreplayable
  | new hpool => exact ⟨hreplayable.distinct, nofun⟩

theorem classes_eq (h : workspace.Provides pool after) : after.classes = workspace.classes := by
  cases h with
  | old hpool => rfl
  | new hpool => rfl

/-- A pool that has a class is not new. -/
theorem of_lookup {name : String} {id : ClassId} (h : workspace.Provides pool after)
    (hid : pool.classes.lookup name = some id) :
    workspace.pool = some pool ∧ after = workspace := by
  cases h with
  | old hpool => exact ⟨hpool, rfl⟩
  | new hpool => cases hid

theorem inOrder (h : workspace.Provides pool after) (horder : workspace.InOrder alike) :
    after.InOrder alike := by
  cases h with
  | old hpool => exact horder
  | new hpool =>
    refine ⟨horder.distinct, ?_, nofun, ?_⟩
    · rintro _ ⟨⟩
      rfl
    · rintro _ ⟨⟩
      exact Nat.lt_succ_self _

theorem path_eq (h : workspace.Provides pool after) (horder : workspace.InOrder alike) :
    pool.path = workspace.registry.wholePath := by
  rw [← h.registry_eq]
  exact (h.inOrder horder).path pool h.pool_eq

end Provides

theorem Replayable.currentPool_provides (h : workspace.Replayable alike)
    (hdiscerns : access.Discerns worlds alike) :
    Meets worlds (currentPool access) workspace fun pool after ↦ workspace.Provides pool after := by
  refine meets_bind (meets_get ?_)
  split
  · rename_i pool hpool
    exact meets_pure (.old hpool)
  · rename_i hpool
    refine meets_bind (meets_ask fun world hworld ↦ ?_)
    obtain ⟨hafter, hanswer⟩ :=
      Registry.answers_newPath hdiscerns h.distinct (h.kept hpool) world hworld
    refine ⟨hafter, ?_⟩
    rw [hanswer]
    exact meets_bind (meets_set (meets_pure (.new hpool)))

theorem currentPool_provides (hdiscerns : access.Discerns worlds alike)
    (h : workspace.InOrder alike) :
    Meets worlds (currentPool access) workspace fun pool after ↦ workspace.Provides pool after :=
  h.replayable.currentPool_provides hdiscerns

/-! ### Changing the search path -/

/-- A new entry at one end. -/
def withEntry (workspace : Workspace Loader) (pool : ClassPool Loader) (side : Side)
    (entry : Entry Loader) : Workspace Loader :=
  { workspace with
    registry := workspace.registry.add side entry
    pool := some { pool with path := Registry.place side entry pool.path } }

/-- A new entry of the system path. -/
def withSystemEntry (workspace : Workspace Loader) (entry : Entry Loader) : Workspace Loader :=
  let registry := workspace.registry
  let index := registry.prepended.length + registry.system.length
  let pool := workspace.pool.map fun pool ↦
    { pool with path := pool.path.insertIdx (min index pool.path.length) entry }
  { workspace with registry := { registry with system := registry.system ++ [entry] }, pool }

@[simp] theorem recorded_withSystemEntry (workspace : Workspace Loader) (entry : Entry Loader)
    (side : Side) : (workspace.withSystemEntry entry).registry.recorded side =
      workspace.registry.recorded side := by
  cases side <;> rfl

/-- The workspace after a renewal. -/
def renewed (workspace : Workspace Loader) (preserve : Bool) : Workspace Loader :=
  { workspace with pool := none, registry := workspace.registry.renew preserve }

theorem InOrder.withEntry (h : workspace.InOrder alike) (hpool : workspace.pool = some pool)
    (hnew : ¬Knows alike (workspace.registry.recorded side) entry) :
    (workspace.withEntry pool side entry).InOrder alike where
  distinct := h.distinct.add hnew
  path := by
    rintro _ ⟨⟩
    exact (congrArg (Registry.place side entry) (h.path pool hpool)).trans
      (Registry.wholePath_add _ side entry).symm
  kept := nofun
  numbered := by
    rintro _ ⟨⟩
    exact h.numbered pool hpool

theorem Replayable.withSystemEntry (h : workspace.Replayable alike) (entry : Entry Loader) :
    (workspace.withSystemEntry entry).Replayable alike where
  distinct side := by
    rw [recorded_withSystemEntry]
    exact h.distinct side
  kept hnone := by
    refine (h.kept (Option.map_eq_none_iff.mp hnone)).imp_right fun hempty side ↦ ?_
    rw [recorded_withSystemEntry]
    exact hempty side

theorem InOrder.withSystemEntry (h : workspace.InOrder alike) (entry : Entry Loader) :
    (workspace.withSystemEntry entry).InOrder alike where
  distinct := (h.replayable.withSystemEntry entry).distinct
  path later hlater := by
    obtain ⟨pool, hpool, rfl⟩ := Option.map_eq_some_iff.mp hlater
    dsimp only
    rw [h.path pool hpool]
    exact Registry.insertIdx_wholePath _ entry
  kept := (h.replayable.withSystemEntry entry).kept
  numbered later hlater := by
    obtain ⟨pool, hpool, rfl⟩ := Option.map_eq_some_iff.mp hlater
    exact h.numbered pool hpool

theorem Replayable.renewed (h : workspace.Replayable alike) (preserve : Bool) :
    (workspace.renewed preserve).Replayable alike where
  distinct side := by
    change Apart alike ((workspace.registry.renew preserve).recorded side)
    rw [Registry.recorded_renew]
    split
    · exact h.distinct side
    · exact List.Pairwise.nil
  kept _ := by
    cases preserve with
    | true => exact .inl rfl
    | false => exact .inr fun side ↦ Registry.recorded_renew _ false side

theorem InOrder.renewed (h : workspace.InOrder alike) (preserve : Bool) :
    (workspace.renewed preserve).InOrder alike where
  distinct := (h.replayable.renewed preserve).distinct
  path := nofun
  kept := (h.replayable.renewed preserve).kept
  numbered := nofun

section

variable (hdiscerns : access.Discerns worlds alike)
include hdiscerns

/-- An entry is added at one end unless one like it was. -/
theorem Replayable.addToPath_adds (h : workspace.Replayable alike) (side : Side)
    (entry : Entry Loader) : Meets worlds (addToPath access side entry) workspace fun new after ↦
      ∃ pool built, workspace.Provides pool built ∧
        (new = true ↔ ¬Knows alike (workspace.registry.recorded side) entry) ∧
        after = if new then built.withEntry pool side entry else built := by
  refine meets_bind ((h.currentPool_provides hdiscerns).imp fun pool built hbuilt ↦ ?_)
  refine meets_bind (meets_get (meets_bind (meets_ask fun world hworld ↦ ?_)))
  obtain ⟨hafter, hanswer⟩ :=
    Registry.answers_register hdiscerns side entry built.registry pool.path world hworld
  refine ⟨hafter, ?_⟩
  rw [hanswer, hbuilt.registry_eq]
  by_cases hknown : Knows alike (workspace.registry.recorded side) entry
  · rw [if_pos hknown]
    exact meets_pure ⟨pool, built, hbuilt, by simp [hknown], rfl⟩
  · rw [if_neg hknown]
    refine meets_bind (meets_set (meets_pure ⟨pool, built, hbuilt, by simp [hknown], ?_⟩))
    rw [if_pos rfl, Workspace.withEntry, hbuilt.registry_eq]

theorem addToPath_adds (h : workspace.InOrder alike) (side : Side) (entry : Entry Loader) :
    Meets worlds (addToPath access side entry) workspace fun new after ↦
      ∃ pool built, workspace.Provides pool built ∧
        (new = true ↔ ¬Knows alike (workspace.registry.recorded side) entry) ∧
        after = if new then built.withEntry pool side entry else built :=
  h.replayable.addToPath_adds hdiscerns side entry

/-- An entry is added to the system path unless one like it is there. -/
theorem addToSystem_adds (entry : Entry Loader) :
    Meets worlds (addToSystem access entry) workspace fun new after ↦
      (new = true ↔ ¬Knows alike workspace.registry.system entry) ∧
        after = if new then workspace.withSystemEntry entry else workspace := by
  refine meets_bind (meets_get (meets_bind (meets_ask fun world hworld ↦ ?_)))
  obtain ⟨hafter, hanswer⟩ :=
    Registry.answers_hasSame hdiscerns entry workspace.registry.system world hworld
  refine ⟨hafter, ?_⟩
  rw [hanswer]
  by_cases hknown : Knows alike workspace.registry.system entry
  · rw [if_pos (decide_eq_true hknown)]
    exact meets_pure ⟨by simp [hknown], rfl⟩
  · rw [if_neg (by rwa [decide_eq_true_iff])]
    refine meets_bind (meets_set (meets_pure ⟨by simp [hknown], ?_⟩))
    rw [if_pos rfl, withSystemEntry]

end

theorem renew_renews (preserve : Bool) :
    Meets worlds (renew preserve : Work World Loader Unit) workspace fun _ after ↦
      after = workspace.renewed preserve :=
  meets_modify rfl

end ClassWeaver.Workspace
