import ClassWeaver.Proofs.Workspace.Lookup
import ClassWeaver.Transformer.Chain

/-!
What transformers make of pristine classes.

A transformer sees nothing but the class, so it makes the same of a pristine class as it makes of
it in a workspace where nothing was read before. What transformers do to other classes does not
come between.
-/

set_option autoImplicit false
set_option relaxedAutoImplicit false

namespace ClassWeaver

open Search

variable {World Loader α : Type}

/-- What a transformer makes of a class that it may be asked about. -/
def Transformer.madeOf (transformer : Transformer Loader) (loader : Option Loader) (name : String)
    (cls : EditableClass) : Except Failure (Option Bytes) :=
  if transformer.accept loader name then (transformer.weave.run.run cls).run.1 else .ok none

namespace Workspace

variable {access : Access World Loader} {contents : Contents Loader} {record : Registry Loader}
  {edited : String → Prop} {worlds : World → Prop} {workspace : Workspace Loader}
  {name : String} {bytes : Bytes} {id : ClassId} {cls : EditableClass}

/-! ### Classes that are found -/

/-- A class that is found at once is found for any loader. -/
theorem getClassFor_ends_of_getClass {post : ClassId → Workspace Loader → Prop}
    (loader : Option Loader)
    (h : Ends worlds (getClass access name) workspace post fun _ _ ↦ False) :
    Ends worlds (getClassFor access loader name) workspace post fun _ _ ↦ False := by
  cases loader with
  | none => exact h
  | some loader =>
    refine ends_bind (ends_lift (meets_bind (Meets.imp h fun outcome after hend ↦ ?_)))
    cases outcome with
    | ok id => exact meets_pure (ends_pure hend)
    | error failure => exact hend.elim

theorem getClass_ends_of_pools (h : workspace.Pools (ClassName.dotted name) id) :
    Ends worlds (getClass access name) workspace
      (fun answer after ↦ answer = id ∧ after = workspace) fun _ _ ↦ False := by
  obtain ⟨pool, hpool, hid⟩ := h
  have hcurrent : Meets worlds (currentPool access) workspace
      fun answer after ↦ answer = pool ∧ after = workspace := by
    refine meets_bind (meets_get ?_)
    rw [hpool]
    exact meets_pure ⟨rfl, rfl⟩
  refine ends_bind (ends_bind (ends_lift (hcurrent.imp ?_)))
  rintro answer after ⟨rfl, rfl⟩
  rw [hid]
  exact ends_pure (ends_pure ⟨rfl, rfl⟩)

/-- In a workspace where nothing was read, a class is read from the search path. -/
theorem getClass_ends_of_unread {path : List (Entry Loader)} (hcalm : access.Calm)
    (hpool : workspace.pool = none) (hregistry : workspace.registry = .ofSystem path)
    (hparse : EditableClass.parse (ClassName.dotted name) bytes = .ok cls)
    (hfirst : FirstToHave contents path (ClassName.dotted name) bytes) :
    Ends (access.Having contents) (getClass access name) workspace
      (fun id after ↦ after.Pools (ClassName.dotted name) id ∧ after.classes[id]? = some cls)
      fun _ _ ↦ False := by
  have hcurrent : Meets (access.Having contents) (currentPool access) workspace
      fun pool after ↦ pool.path = path ∧ pool.classes = [] := by
    refine meets_bind (meets_get ?_)
    rw [hpool, hregistry]
    refine meets_bind (meets_ask fun world hworld ↦ ⟨hworld, meets_bind (meets_set ?_)⟩)
    exact meets_pure ⟨rfl, rfl⟩
  refine ends_bind (ends_bind (ends_lift (hcurrent.imp ?_)))
  rintro pool after ⟨hpath, hclasses⟩
  rw [hclasses]
  refine ends_bind ((readFirst_ends hcalm _ pool.path).imp ?_ ?_)
  · rintro answer before ⟨hfound, -⟩
    rw [hpath, found_eq_some_iff.mpr hfirst] at hfound
    cases hfound
    simp only [hparse, ClassPool.keep, hclasses, List.lookup_nil]
    exact ends_bind (ends_get (ends_bind (ends_set (ends_pure (ends_pure
      ⟨⟨_, rfl, List.lookup_cons_self⟩, Array.getElem?_push_size⟩)))))
  · rintro failure before ⟨hfound, -⟩
    rw [hpath, found_eq_some_iff.mpr hfirst] at hfound
    cases hfound

/-! ### What transformers make of them -/

theorem shared_meets {work : Work World Loader α} {post : α → Workspace Loader → Prop}
    (h : Meets worlds work { workspace with holds := workspace.holds.lockShared }
      fun answer after ↦ ∀ holds, post answer { after with holds }) :
    Meets worlds (shared work) workspace post := by
  refine meets_bind (meets_modify (meets_bind (h.imp fun answer after hpost ↦ ?_)))
  refine meets_bind (meets_modify (meets_pure ?_))
  split
  · exact hpost _
  · exact hpost _

/-- The class that is found is woven, and put back. -/
theorem transform_meets_of_accept {transformer : Transformer Loader} {loader : Option Loader}
    {found : ClassId → Workspace Loader → Prop} (haccept : transformer.accept loader name = true)
    (h : ∀ holds, Ends worlds (getClassFor access loader name) { workspace with holds }
      (fun id after ↦ found id after ∧ after.classes[id]? = some cls) fun _ _ ↦ False) :
    Meets worlds (transform access transformer loader name) workspace fun answer after ↦
      answer = (transformer.weave.run.run cls).run.1 ∧ ∃ id between holds, found id between ∧
        between.classes[id]? = some cls ∧ after = { between with
          classes := between.classes.setIfInBounds id (transformer.weave.run.run cls).run.2
          holds } := by
  rw [transform, if_pos haccept]
  refine shared_meets ?_
  rw [fetchAndWeave, ExceptT.run_bind]
  refine meets_bind (Meets.imp (h _) fun outcome between hend ↦ ?_)
  cases outcome with
  | error failure => exact hend.elim
  | ok id =>
    refine (edit_meets hend.2).imp ?_
    rintro answer after ⟨hanswer, rfl⟩ holds
    exact ⟨hanswer, id, between, holds, hend.1, hend.2, rfl⟩

theorem transform_meets {transformer : Transformer Loader} {loader : Option Loader}
    (h : ∀ holds, Ends worlds (getClass access name) { workspace with holds }
      (fun id after ↦ after.classes[id]? = some cls) fun _ _ ↦ False) :
    Meets worlds (transform access transformer loader name) workspace
      fun answer _ ↦ answer = transformer.madeOf loader name cls := by
  rw [Transformer.madeOf]
  by_cases haccept : transformer.accept loader name = true
  · rw [if_pos haccept]
    have hfound (holds : Lock.Holds) : Ends worlds (getClassFor access loader name)
        { workspace with holds } (fun id after ↦ True ∧ after.classes[id]? = some cls)
        fun _ _ ↦ False :=
      getClassFor_ends_of_getClass loader ((h holds).imp (fun _ _ ↦ .intro trivial)
        fun _ _ ↦ False.elim)
    exact (transform_meets_of_accept haccept hfound).imp fun _ _ ↦ And.left
  · rw [transform, if_neg haccept, if_neg haccept]
    exact meets_pure rfl

/-- A transformer is asked about a pristine class. -/
theorem transform_meets_of_pristine {transformer : Transformer Loader} {loader : Option Loader}
    (h : Pristine contents workspace (ClassName.dotted name) bytes)
    (hparse : EditableClass.parse (ClassName.dotted name) bytes = .ok cls) :
    Meets worlds (transform access transformer loader name) workspace
      fun answer _ ↦ answer = transformer.madeOf loader name cls := by
  obtain ⟨pool, id, own, hpool, hid, hown, hparsed, -⟩ := h
  obtain rfl : cls = own := Except.ok.inj (hparse.symm.trans hparsed)
  refine transform_meets fun holds ↦ ?_
  have hpools : Pools { workspace with holds } (ClassName.dotted name) id := ⟨pool, hpool, hid⟩
  refine (getClass_ends_of_pools hpools).imp ?_ fun _ _ ↦ False.elim
  rintro answer after ⟨rfl, rfl⟩
  exact hown

/-- A transformer is asked about a class of a workspace where nothing was read. -/
theorem transform_meets_of_unread {transformer : Transformer Loader} {loader : Option Loader}
    {path : List (Entry Loader)} (hcalm : access.Calm)
    (hparse : EditableClass.parse (ClassName.dotted name) bytes = .ok cls)
    (hfirst : FirstToHave contents path (ClassName.dotted name) bytes) :
    Meets (access.Having contents) (transform access transformer loader name) (.ofSystem path)
      fun answer _ ↦ answer = transformer.madeOf loader name cls :=
  transform_meets fun _ ↦ (getClass_ends_of_unread hcalm rfl rfl hparse hfirst).imp
    (fun _ _ hend ↦ hend.2) fun _ _ ↦ False.elim

/-! ### What transformers do to other classes -/

theorem Fresh.withHolds (h : Fresh access contents record edited workspace)
    (holds : Lock.Holds) :
    Fresh access contents record edited { workspace with holds } :=
  ⟨h.unbuilt, h.replays, h.read, h.unshared, h.pristine⟩

theorem transform_grows {transformer : Transformer Loader} {loader : Option Loader}
    (hcalm : access.Calm) (h : Fresh access contents record edited workspace)
    (hname : edited (ClassName.dotted name)) :
    Meets (access.Having contents) (transform access transformer loader name) workspace
      fun _ after ↦ Grows access contents record edited workspace after := by
  rw [transform]
  split
  · have hwoven : Ends (access.Having contents) (fetchAndWeave access transformer loader name)
        { workspace with holds := workspace.holds.lockShared }
        (fun _ after ↦ Grows access contents record edited workspace after)
        (fun _ after ↦ Grows access contents record edited workspace after) := by
      refine ends_bind ((getClassFor_ends hcalm (h.withHolds _) loader name).imp ?_
        fun _ _ hafter ↦ ⟨hafter.fresh, hafter.keeps⟩)
      rintro id after ⟨hafter, hid⟩
      refine (edit_grows hafter.fresh hid hname).imp fun outcome last hlast ↦ ?_
      have hgrows : Grows access contents record edited workspace last :=
        ⟨hlast.fresh, hafter.keeps.trans hlast.keeps⟩
      cases outcome with
      | ok answer => exact hgrows
      | error failure => exact hgrows
    refine shared_meets (Meets.imp hwoven fun outcome after hafter holds ↦ ?_)
    cases outcome with
    | ok answer => exact ⟨hafter.fresh.withHolds holds, hafter.keeps⟩
    | error failure => exact ⟨hafter.fresh.withHolds holds, hafter.keeps⟩
  · exact meets_pure ⟨h, .refl workspace⟩

/-- A class that is being loaded, and a transformer that is asked about it. -/
structure Request (Loader : Type) where
  transformer : Transformer Loader
  loader : Option Loader
  /-- In either spelling. -/
  name : String

/-- Answers requests one after the other. -/
def transformEach (access : Access World Loader) :
    List (Request Loader) → Work World Loader Unit
  | [] => return
  | request :: rest => do
    let _ ← transform access request.transformer request.loader request.name
    transformEach access rest

theorem transformEach_grows {requests : List (Request Loader)} (hcalm : access.Calm)
    (h : Fresh access contents record edited workspace)
    (hrequests : ∀ request ∈ requests, edited (ClassName.dotted request.name)) :
    Meets (access.Having contents) (transformEach access requests) workspace
      fun _ after ↦ Grows access contents record edited workspace after := by
  induction requests generalizing workspace with
  | nil => exact meets_pure ⟨h, .refl workspace⟩
  | cons request rest ih =>
    obtain ⟨hrequest, hrest⟩ := List.forall_mem_cons.mp hrequests
    refine meets_bind ((transform_grows hcalm h hrequest).imp fun _ after hafter ↦ ?_)
    exact (ih hafter.fresh hrest).imp fun _ last ↦ hafter.trans

/-! ### The next transformer -/

/-- What comes of a request. -/
def Request.answer (access : Access World Loader) (request : Request Loader)
    (workspace : Workspace Loader) (world : World) : Except Failure (Option Bytes) :=
  (((transform access request.transformer request.loader request.name).run workspace).run
    world).1.1

/-- Whatever was made of other classes, what comes of the next request for the class called `name`
is what comes of it in a new workspace with the search path `path`. -/
def WeavesAfresh (access : Access World Loader) (worlds : World → Prop)
    (workspace : Workspace Loader) (name : String) (path : List (Entry Loader)) : Prop :=
  ∀ (others : List (Request Loader)) (next : Request Loader) (world otherWorld : World),
    (∀ request ∈ others, ClassName.dotted request.name ≠ name) →
      ClassName.dotted next.name = name → worlds world → worlds otherWorld →
        let ended := ((transformEach access others).run workspace).run world
        next.answer access ended.1.2 ended.2 = next.answer access (.ofSystem path) otherWorld

theorem Fresh.weaken {more : String → Prop} (h : Fresh access contents record edited workspace)
    (hmore : ∀ name, edited name → more name) : Fresh access contents record more workspace :=
  ⟨h.unbuilt, h.replays, h.read, h.unshared, fun name id hid hname ↦
    h.pristine name id hid fun hedited ↦ hname (hmore name hedited)⟩

theorem weavesAfresh_of_pristine {pool : ClassPool Loader} (hcalm : access.Calm)
    (h : Fresh access contents record (fun _ ↦ False) workspace)
    (hpool : workspace.pool = some pool) (hpristine : Pristine contents workspace name bytes) :
    WeavesAfresh access (access.Having contents) workspace name pool.path := by
  rintro others next world otherWorld hothers rfl hworld hotherWorld
  obtain ⟨own, id, cls, hown, -, -, hparse, hfirst⟩ := id hpristine
  obtain rfl : pool = own := Option.some.inj (hpool.symm.trans hown)
  have hedited : Fresh access contents record (· ≠ ClassName.dotted next.name) workspace :=
    h.weaken fun _ ↦ False.elim
  obtain ⟨hafter, hgrows⟩ := transformEach_grows hcalm hedited hothers world hworld
  have hstill := hgrows.keeps _ bytes (fun hne ↦ hne rfl) hpristine
  exact (transform_meets_of_pristine hstill hparse _ hafter).2.trans
    (transform_meets_of_unread hcalm hparse hfirst _ hotherWorld).2.symm

end Workspace

end ClassWeaver
