import ClassWeaver.Proofs.Search.Contents
import ClassWeaver.Proofs.Workspace.Effects

/-!
Which class of the pool a name stands for.

A class of the pool is pristine if it is as it was read from the first entry of the search path to
have it: neither frozen nor modified. As long as what the entries have does not change, looking
classes up keeps every pristine class so, and adds pristine classes only.
-/

set_option autoImplicit false
set_option relaxedAutoImplicit false

namespace ClassWeaver

open Search

variable {World Loader α : Type}

/-- A class that was just read is open to edits, and serializes to the bytes that it was read
from. -/
theorem EditableClass.of_parse_eq_ok {name : String} {bytes : Bytes} {cls : EditableClass}
    (h : EditableClass.parse name bytes = .ok cls) :
    cls.frozen = false ∧ cls.modified = false ∧ cls.source = bytes ∧
      ClassFile.parse bytes = .ok cls.file := by
  unfold EditableClass.parse at h
  split at h
  · cases h
  · rename_i file hfile
    split at h
    · cases h
    · dsimp only at h
      split at h
      · cases h
      · cases h
        exact ⟨rfl, rfl, rfl, hfile⟩

/-- A class that was just read has the name that its file declares. -/
theorem EditableClass.declared_of_parse_eq_ok {name : String} {bytes : Bytes} {cls : EditableClass}
    (h : EditableClass.parse name bytes = .ok cls) :
    cls.name = name ∧ ∃ declared, cls.file.thisName = .ok declared ∧
      ClassName.dotted declared = name := by
  unfold EditableClass.parse at h
  split at h
  · cases h
  · split at h
    · cases h
    · rename_i declared hdeclared
      dsimp only at h
      split at h
      · cases h
      · rename_i hnamed
        cases h
        exact ⟨rfl, declared, hdeclared, Decidable.of_not_not hnamed⟩

/-! ### What the pool keeps -/

namespace ClassPool

variable {Loader : Type} {pool : ClassPool Loader} {name : String} {id known : ClassId}

theorem keep_of_lookup_eq_some (h : pool.classes.lookup name = some known) :
    pool.keep name id = (pool, known) := by
  rw [keep, h]

theorem keep_of_lookup_eq_none (h : pool.classes.lookup name = none) :
    pool.keep name id = ({ pool with classes := (name, id) :: pool.classes }, id) := by
  rw [keep, h]

theorem lookup_keep (other : String) :
    (pool.keep name id).1.classes.lookup other =
      if other = name then some (pool.keep name id).2 else pool.classes.lookup other := by
  cases h : pool.classes.lookup name with
  | some known =>
    rw [keep_of_lookup_eq_some h]
    split
    · rename_i hsame
      exact hsame ▸ h
    · rfl
  | none =>
    rw [keep_of_lookup_eq_none h, List.lookup_cons]
    split
    · rename_i hsame
      rw [if_pos (beq_iff_eq.mp hsame)]
    · rename_i hother
      rw [if_neg (beq_eq_false_iff_ne.mp hother)]

/-- What was known before an entry joined is known still, unless the entry had its name already. -/
theorem lookup_cons_eq_some {classes : List (String × ClassId)} {other : String}
    (hname : classes.lookup name = none) (hother : classes.lookup other = some known) :
    ((name, id) :: classes).lookup other = some known := by
  have hdistinct : (other == name) = false := by
    refine beq_eq_false_iff_ne.mpr fun hequal ↦ ?_
    rw [hequal, hname] at hother
    cases hother
  rwa [List.lookup_cons, hdistinct]

end ClassPool

namespace Workspace

/-! ### Classes of the pool -/

/-- The pool has the class called `name` under the number `id`. -/
def Pools (workspace : Workspace Loader) (name : String) (id : ClassId) : Prop :=
  ∃ pool, workspace.pool = some pool ∧ pool.classes.lookup name = some id

/-- The class of the pool called `name` is as it was read from `bytes`, which the first entry of
the search path to have the class has. -/
def Pristine (contents : Contents Loader) (workspace : Workspace Loader) (name : String)
    (bytes : Bytes) : Prop :=
  ∃ pool id cls, workspace.pool = some pool ∧ pool.classes.lookup name = some id ∧
    workspace.classes[id]? = some cls ∧ EditableClass.parse name bytes = .ok cls ∧
    FirstToHave contents pool.path name bytes

/-- A search path that replays a record, with more loaders at the end. -/
def Replays (access : Access World Loader) (contents : Contents Loader)
    (record : Registry Loader) (path : List (Entry Loader)) : Prop :=
  ∃ (world : World) (loaders : List Loader), access.Having contents world ∧
    path = ((record.newPath access).run world).1.2 ++ loaders.map .loader

/-- A workspace since whose last renewal classes were only looked up, apart from the classes that
`edited` holds of. The record was `record` then. -/
structure Fresh (access : Access World Loader) (contents : Contents Loader)
    (record : Registry Loader) (edited : String → Prop) (workspace : Workspace Loader) : Prop where
  unbuilt : workspace.pool = none → workspace.registry = record
  replays : ∀ pool, workspace.pool = some pool → Replays access contents record pool.path
  read : ∀ name id, workspace.Pools name id → id < workspace.classes.size
  unshared : ∀ name other id, workspace.Pools name id → workspace.Pools other id → name = other
  pristine : ∀ name id, workspace.Pools name id → ¬edited name →
    ∃ bytes, Pristine contents workspace name bytes

/-- Pristine classes stay pristine, apart from those that `edited` holds of. -/
def Keeps (contents : Contents Loader) (edited : String → Prop)
    (before after : Workspace Loader) : Prop :=
  ∀ name bytes, ¬edited name → Pristine contents before name bytes →
    Pristine contents after name bytes

/-- From one workspace to another, classes were only looked up, apart from those that `edited`
holds of. -/
structure Grows (access : Access World Loader) (contents : Contents Loader)
    (record : Registry Loader) (edited : String → Prop) (before after : Workspace Loader) :
    Prop where
  fresh : Fresh access contents record edited after
  keeps : Keeps contents edited before after

variable {access : Access World Loader} {contents : Contents Loader} {record : Registry Loader}
  {edited : String → Prop} {workspace after : Workspace Loader} {name : String} {bytes : Bytes}
  {id : ClassId} {pool later : ClassPool Loader}

theorem Keeps.refl (workspace : Workspace Loader) : Keeps contents edited workspace workspace :=
  fun _ _ _ h ↦ h

theorem Keeps.trans {last : Workspace Loader} (hfirst : Keeps contents edited workspace after)
    (hsecond : Keeps contents edited after last) : Keeps contents edited workspace last :=
  fun name bytes hname h ↦ hsecond name bytes hname (hfirst name bytes hname h)

theorem Grows.trans {last : Workspace Loader}
    (hfirst : Grows access contents record edited workspace after)
    (hsecond : Grows access contents record edited after last) :
    Grows access contents record edited workspace last :=
  ⟨hsecond.fresh, hfirst.keeps.trans hsecond.keeps⟩

theorem Replays.append (h : Replays access contents record pool.path) (loader : Loader) :
    Replays access contents record (pool.path ++ [.loader loader]) := by
  obtain ⟨world, loaders, hworld, hpath⟩ := h
  refine ⟨world, loaders ++ [loader], hworld, ?_⟩
  rw [hpath, List.append_assoc, List.map_append]
  rfl

/-- A pristine class is not touched by a longer search path, or by what becomes of others. -/
theorem Pristine.mono (h : Pristine contents workspace name bytes)
    (hpool : workspace.pool = some pool) (hlater : after.pool = some later)
    {more : List (Entry Loader)} (hpath : later.path = pool.path ++ more)
    (hname : ∀ id, pool.classes.lookup name = some id → later.classes.lookup name = some id)
    (hclass : ∀ id, workspace.Pools name id → after.classes[id]? = workspace.classes[id]?) :
    Pristine contents after name bytes := by
  obtain ⟨own, id, cls, hown, hid, hcls, hparse, hfirst⟩ := h
  obtain rfl : pool = own := Option.some.inj (hpool.symm.trans hown)
  exact ⟨later, id, cls, hlater, hname id hid, (hclass id ⟨pool, hpool, hid⟩).trans hcls, hparse,
    hpath ▸ hfirst.append more⟩

/-- A pool that nothing was read through. -/
theorem Fresh.of_empty (hpool : workspace.pool = some pool) (hclasses : pool.classes = [])
    (hreplays : Replays access contents record pool.path) :
    Fresh access contents record edited workspace := by
  have hpools (name : String) (id : ClassId) : ¬workspace.Pools name id := by
    rintro ⟨own, hown, hid⟩
    obtain rfl : pool = own := Option.some.inj (hpool.symm.trans hown)
    rw [hclasses] at hid
    cases hid
  exact {
    unbuilt hnone := by cases hpool.symm.trans hnone
    replays own hown := Option.some.inj (hpool.symm.trans hown) ▸ hreplays
    read name id hid := absurd hid (hpools name id)
    unshared name other id hid := absurd hid (hpools name id)
    pristine name id hid := absurd hid (hpools name id) }

/-- A pool that got no new class. -/
theorem Fresh.mono (h : Fresh access contents record edited workspace)
    (hlater : after.pool = some later) (hreplays : Replays access contents record later.path)
    (hpools : ∀ name id, after.Pools name id → workspace.Pools name id)
    (hsize : workspace.classes.size ≤ after.classes.size)
    (hkeeps : Keeps contents edited workspace after) :
    Fresh access contents record edited after where
  unbuilt hnone := by cases hlater.symm.trans hnone
  replays own hown := Option.some.inj (hlater.symm.trans hown) ▸ hreplays
  read name id hid := Nat.lt_of_lt_of_le (h.read name id (hpools name id hid)) hsize
  unshared name other id hid hother :=
    h.unshared name other id (hpools name id hid) (hpools other id hother)
  pristine name id hid hname :=
    (h.pristine name id (hpools name id hid) hname).imp fun bytes ↦ hkeeps name bytes hname

/-! ### The pool and its search path -/

section

variable (hcalm : access.Calm) (h : Fresh access contents record edited workspace)
include hcalm h

theorem currentPool_meets : Meets (access.Having contents) (currentPool access) workspace
    fun pool after ↦ after.pool = some pool ∧
      Grows access contents record edited workspace after := by
  refine meets_bind (meets_get ?_)
  split
  · rename_i pool hpool
    exact meets_pure ⟨hpool, h, .refl workspace⟩
  · rename_i hpool
    refine meets_bind (meets_ask fun world hworld ↦
      ⟨hworld.spares (hcalm.newPath _), meets_bind (meets_set (meets_pure ⟨rfl, ?_, ?_⟩))⟩)
    · exact .of_empty rfl rfl
        ⟨world, [], hworld, by rw [h.unbuilt hpool, List.map_nil, List.append_nil]⟩
    · rintro name bytes - ⟨own, -, -, hown, -⟩
      cases hpool.symm.trans hown

theorem addToPath_meets (loader : Loader) :
    Meets (access.Having contents) (addToPath access .back (.loader loader)) workspace
      fun _ after ↦ Grows access contents record edited workspace after := by
  refine meets_bind ((currentPool_meets hcalm h).imp ?_)
  rintro pool before ⟨hpool, hfresh, hkeeps⟩
  refine meets_bind (meets_get (meets_bind (meets_ask fun world hworld ↦
    ⟨hworld.spares (hcalm.register _ _ _ _), ?_⟩)))
  split
  · exact meets_pure ⟨hfresh, hkeeps⟩
  · rename_i registry path hregister
    obtain ⟨-, rfl⟩ := Registry.register_eq_some hregister
    let longer := { pool with path := pool.path ++ [Entry.loader loader] }
    have hkept : Keeps contents edited before { before with registry, pool := some longer } :=
      fun name bytes _ hpristine ↦
        hpristine.mono hpool rfl rfl (fun _ hid ↦ hid) fun _ _ ↦ rfl
    refine meets_bind (meets_set (meets_pure ⟨hfresh.mono rfl
      ((hfresh.replays pool hpool).append loader) ?_ (Nat.le_refl _) hkept, hkeeps.trans hkept⟩))
    rintro name id ⟨own, hown, hid⟩
    cases hown
    exact ⟨pool, hpool, hid⟩

end

/-! ### Looking classes up -/

/-- Reading answers what asking the entries finds, and touches nothing. -/
theorem readFirst_ends (hcalm : access.Calm) (name : String) (path : List (Entry Loader)) :
    Ends (access.Having contents) (readFirst access name path) workspace
      (fun answer after ↦ found contents name path = .ok answer ∧ after = workspace)
      (fun failure after ↦ found contents name path = .error failure ∧ after = workspace) := by
  induction path with
  | nil => exact ends_pure ⟨rfl, rfl⟩
  | cons entry rest ih =>
    refine ends_bind (ends_ask fun world hworld ↦
      ⟨hworld.spares (hcalm.findClass entry name), ?_⟩)
    have hanswer : ((entry.findClass access name).run world).1 = contents entry name := by
      rw [← hworld]
      rfl
    rw [hanswer]
    cases hentry : contents entry name with
    | error _ => exact ends_throw ⟨by rw [found, hentry], rfl⟩
    | ok answer =>
      cases answer with
      | some bytes => exact ends_pure ⟨by rw [found, hentry], rfl⟩
      | none =>
        simp only [found, hentry]
        exact ih

/-- The workspace after a class was read into its pool. -/
def withClass (workspace : Workspace Loader) (pool : ClassPool Loader) (name : String)
    (cls : EditableClass) : Workspace Loader :=
  { workspace with
    classes := workspace.classes.push cls
    pool := some { pool with classes := (name, workspace.classes.size) :: pool.classes } }

theorem pools_withClass {cls : EditableClass} {other : String}
    (hpool : workspace.pool = some pool)
    (h : (workspace.withClass pool name cls).Pools other id) :
    (other = name ∧ id = workspace.classes.size) ∨ workspace.Pools other id := by
  obtain ⟨own, hown, hid⟩ := h
  cases hown
  rw [List.lookup_cons] at hid
  split at hid
  · rename_i hother
    exact .inl ⟨beq_iff_eq.mp hother, (Option.some.inj hid).symm⟩
  · exact .inr ⟨pool, hpool, hid⟩

theorem pristine_withClass {cls : EditableClass} (hparse : EditableClass.parse name bytes = .ok cls)
    (hfirst : FirstToHave contents pool.path name bytes) :
    Pristine contents (workspace.withClass pool name cls) name bytes :=
  ⟨_, workspace.classes.size, cls, rfl, List.lookup_cons_self, Array.getElem?_push_size, hparse,
    hfirst⟩

theorem keeps_withClass {cls : EditableClass} (h : Fresh access contents record edited workspace)
    (hpool : workspace.pool = some pool) (hname : pool.classes.lookup name = none) :
    Keeps contents edited workspace (workspace.withClass pool name cls) := by
  intro other bytes _ hpristine
  refine hpristine.mono hpool rfl (List.append_nil _).symm (fun id hid ↦ ?_) fun id hid ↦ ?_
  · exact ClassPool.lookup_cons_eq_some hname hid
  · have hlt := h.read other id hid
    exact (Array.getElem?_push_lt hlt).trans (Array.getElem?_eq_getElem hlt).symm

theorem fresh_withClass {cls : EditableClass} (h : Fresh access contents record edited workspace)
    (hpool : workspace.pool = some pool) (hname : pool.classes.lookup name = none)
    (hparse : EditableClass.parse name bytes = .ok cls)
    (hfirst : FirstToHave contents pool.path name bytes) :
    Fresh access contents record edited (workspace.withClass pool name cls) where
  unbuilt := nofun
  replays own hown := by
    cases hown
    exact h.replays pool hpool
  read other id hid := by
    rcases pools_withClass hpool hid with ⟨-, rfl⟩ | hold
    · simp [withClass]
    · exact Nat.lt_trans (h.read other id hold) (by simp [withClass])
  unshared other third id hother hthird := by
    rcases pools_withClass hpool hother with ⟨rfl, rfl⟩ | hold
    · rcases pools_withClass hpool hthird with ⟨rfl, -⟩ | hold
      · rfl
      · exact absurd (h.read third _ hold) (Nat.lt_irrefl _)
    · rcases pools_withClass hpool hthird with ⟨-, rfl⟩ | hthird
      · exact absurd (h.read other _ hold) (Nat.lt_irrefl _)
      · exact h.unshared other third id hold hthird
  pristine other id hid hother := by
    rcases pools_withClass hpool hid with ⟨rfl, -⟩ | hold
    · exact ⟨bytes, pristine_withClass hparse hfirst⟩
    · exact (h.pristine other id hold hother).imp fun bytes ↦
        keeps_withClass h hpool hname other bytes hother

section

variable (hcalm : access.Calm) (h : Fresh access contents record edited workspace)
include hcalm h

theorem findInPool_ends (name : String) :
    Ends (access.Having contents) (findInPool access name) workspace
      (fun answer after ↦ Grows access contents record edited workspace after ∧
        ∀ id, answer = some id → after.Pools name id)
      (fun _ after ↦ Grows access contents record edited workspace after) := by
  refine ends_bind (ends_lift ((currentPool_meets hcalm h).imp ?_))
  rintro pool before ⟨hpool, hfresh, hkeeps⟩
  split
  · rename_i id hid
    exact ends_pure ⟨⟨hfresh, hkeeps⟩, fun _ hanswer ↦ ⟨pool, hpool, hid.trans hanswer⟩⟩
  · rename_i hunknown
    refine ends_bind ((readFirst_ends hcalm name pool.path).imp ?_ ?_)
    · rintro answer last ⟨hfound, rfl⟩
      cases answer with
      | none => exact ends_pure ⟨⟨hfresh, hkeeps⟩, nofun⟩
      | some bytes =>
        simp only
        split
        · exact ends_throw ⟨hfresh, hkeeps⟩
        · rename_i cls hparse
          have hnone : pool.classes.lookup name = none := hunknown
          have hfirst : FirstToHave contents pool.path name bytes := found_eq_some_iff.mp hfound
          refine ends_bind (ends_get ?_)
          rw [ClassPool.keep_of_lookup_eq_none hnone]
          exact ends_bind (ends_set (ends_pure
            ⟨⟨fresh_withClass hfresh hpool hnone hparse hfirst,
              hkeeps.trans (keeps_withClass hfresh hpool hnone)⟩,
            fun _ hanswer ↦ ⟨_, rfl, List.lookup_cons_self.trans hanswer⟩⟩))
    · rintro failure last ⟨-, rfl⟩
      exact ⟨hfresh, hkeeps⟩

theorem getInPool_ends (name : String) :
    Ends (access.Having contents) (getInPool access name) workspace
      (fun id after ↦ Grows access contents record edited workspace after ∧ after.Pools name id)
      (fun _ after ↦ Grows access contents record edited workspace after) := by
  refine ends_bind ((findInPool_ends hcalm h name).imp ?_ fun _ _ hgrows ↦ hgrows)
  rintro answer after ⟨hgrows, hid⟩
  cases answer with
  | some id => exact ends_pure ⟨hgrows, hid id rfl⟩
  | none => exact ends_throw hgrows

/-- A class can be looked up in either spelling of its name. -/
theorem getClass?_meets (name : String) :
    Meets (access.Having contents) (getClass? access name) workspace
      fun answer after ↦ Grows access contents record edited workspace after ∧
        ∀ id, answer = some id → after.Pools (ClassName.dotted name) id := by
  refine meets_bind (Meets.imp (getInPool_ends hcalm h (ClassName.dotted name)) ?_)
  intro outcome after hend
  cases outcome with
  | ok id =>
    refine meets_pure ⟨hend.1, fun other hother ↦ ?_⟩
    cases hother
    exact hend.2
  | error failure => exact meets_pure ⟨hend, nofun⟩

theorem getClassFor_ends (loader : Option Loader) (name : String) :
    Ends (access.Having contents) (getClassFor access loader name) workspace
      (fun id after ↦ Grows access contents record edited workspace after ∧
        after.Pools (ClassName.dotted name) id)
      (fun _ after ↦ Grows access contents record edited workspace after) := by
  cases loader with
  | none => exact getInPool_ends hcalm h _
  | some loader =>
    refine ends_bind (ends_lift ((getClass?_meets hcalm h name).imp ?_))
    rintro answer first ⟨hfirst, hid⟩
    cases answer with
    | some id => exact ends_pure ⟨hfirst, hid id rfl⟩
    | none =>
      refine ends_bind (ends_lift ((addToPath_meets hcalm hfirst.fresh loader).imp ?_))
      intro added second hsecond
      refine (getInPool_ends hcalm hsecond.fresh (ClassName.dotted name)).imp ?_ ?_
      · rintro id after ⟨hafter, hpools⟩
        exact ⟨(hfirst.trans hsecond).trans hafter, hpools⟩
      · exact fun _ _ hafter ↦ (hfirst.trans hsecond).trans hafter

end

/-! ### Editing classes -/

/-- An edit answers what it answers on the class alone, and puts the class back. -/
theorem edit_meets {worlds : World → Prop} {cls : EditableClass} {change : ClassEdit Id α}
    (h : workspace.classes[id]? = some cls) :
    Meets worlds (edit id change).run workspace fun outcome after ↦
      outcome = (change.run.run cls).run.1 ∧
        after = { workspace with
          classes := workspace.classes.setIfInBounds id (change.run.run cls).run.2 } := by
  have hends : Ends worlds (edit id change) workspace
      (fun answer after ↦ (change.run.run cls).run.1 = .ok answer ∧ after = { workspace with
        classes := workspace.classes.setIfInBounds id (change.run.run cls).run.2 })
      (fun failure after ↦ (change.run.run cls).run.1 = .error failure ∧ after = { workspace with
        classes := workspace.classes.setIfInBounds id (change.run.run cls).run.2 }) := by
    refine ends_bind (ends_get ?_)
    rw [h]
    refine ends_bind (ends_set ?_)
    have hrun : (change cls).1 = (change.run.run cls).run.1 := rfl
    rw [hrun]
    cases hanswer : (change.run.run cls).run.1 with
    | ok answer => exact ends_pure ⟨rfl, rfl⟩
    | error failure => exact ends_throw ⟨rfl, rfl⟩
  refine Meets.imp hends fun outcome after hend ↦ ?_
  cases outcome with
  | ok answer => exact ⟨hend.1.symm, hend.2⟩
  | error failure => exact ⟨hend.1.symm, hend.2⟩

/-- Whatever is done to a class that may be edited, the others stay what they were. -/
theorem edit_grows {worlds : World → Prop} {change : ClassEdit Id α}
    (h : Fresh access contents record edited workspace) (hid : workspace.Pools name id)
    (hname : edited name) :
    Meets worlds (edit id change).run workspace fun _ after ↦
      Grows access contents record edited workspace after := by
  have hlt := h.read name id hid
  refine (edit_meets (Array.getElem?_eq_getElem hlt)).imp ?_
  rintro outcome after ⟨-, rfl⟩
  have hkeeps (cls : EditableClass) : Keeps contents edited workspace
      { workspace with classes := workspace.classes.setIfInBounds id cls } := by
    intro other bytes hother hpristine
    have ⟨pool, hpool, _⟩ := hid
    refine hpristine.mono hpool hpool (List.append_nil _).symm (fun _ hsame ↦ hsame) fun own hown ↦
      Array.getElem?_setIfInBounds_ne fun hsame ↦ hother ?_
    rwa [h.unshared other name id (hsame ▸ hown) hid]
  obtain ⟨pool, hpool, -⟩ := hid
  exact ⟨h.mono hpool (h.replays pool hpool) (fun _ _ hpools ↦ hpools) (by simp) (hkeeps _),
    hkeeps _⟩

end Workspace

end ClassWeaver
