import ClassWeaver.Proofs.Workspace.Weaving
import ClassWeaver.Redefinition

/-!
The bytes that a retransformation submits are those that the classes are read from.

After a renewal nothing is read yet, whatever was done before. Every class of a batch is then read
through the new pool, or was read for an earlier class of the batch; serializing and defrosting
leaves it as it was read.
-/

set_option autoImplicit false
set_option relaxedAutoImplicit false

namespace ClassWeaver

open Search Workspace

variable {World Loader Class α : Type}

/-- A machine can be asked about its classes without a change of what loaders have. -/
structure Instrumentation.Calm (access : Access World Loader)
    (instrumentation : Instrumentation World Loader Class) : Prop where
  className : ∀ cls, access.Spares (instrumentation.className cls)
  classLoader : ∀ cls, access.Spares (instrumentation.classLoader cls)

/-- The machine gives `name` as the name of the class, in some world. -/
def Instrumentation.Names (instrumentation : Instrumentation World Loader Class) (cls : Class)
    (name : String) : Prop :=
  ∃ world, ((instrumentation.className cls).run world).1 = .ok name

namespace Redefinition

variable {access : Access World Loader} {instrumentation : Instrumentation World Loader Class}
  {contents : Contents Loader} {record : Registry Loader} {workspace after : Workspace Loader}
  {cls : Class} {name : String} {bytes : Bytes} {id : ClassId}

/-! ### One class -/

theorem ask_ends {query : StateM World (Except Failure α)} (hquery : access.Spares query) :
    Ends (access.Having contents) (ask query) workspace
      (fun answer after ↦ (∃ world, (query.run world).1 = .ok answer) ∧ after = workspace)
      (fun _ after ↦ after = workspace) := by
  refine ends_bind (ends_ask fun world hworld ↦ ⟨hworld.spares hquery, ?_⟩)
  cases hanswer : (query.run world).1 with
  | ok answer => exact ends_pure ⟨⟨world, hanswer⟩, rfl⟩
  | error failure => exact ends_throw rfl

theorem about_ends {work : FailingWork World Loader α} {post : α → Workspace Loader → Prop}
    {stop : Workspace Loader → Prop} (name : String)
    (h : Ends (access.Having contents) work workspace post fun _ ↦ stop) :
    Ends (access.Having contents) (about name work) workspace post fun _ ↦ stop :=
  ends_tryCatch (h.imp (fun _ _ hpost ↦ hpost) fun _ _ hstop ↦ ends_throw hstop)

/-- Serializing and defrosting leave a pristine class as it is. -/
theorem serialize_ends {worlds : World → Prop} (hid : workspace.Pools name id)
    (hpristine : Pristine contents workspace name bytes) :
    Ends worlds (edit id (do
      let bytes ← ClassEdit.serialize
      ClassEdit.defrost
      return bytes)) workspace
      (fun answer after ↦ answer = bytes ∧ after = workspace) fun _ _ ↦ False := by
  obtain ⟨pool, own, cls, hpool, hown, hcls, hparse, -⟩ := hpristine
  obtain ⟨known, hknown, hid⟩ := hid
  obtain rfl : pool = known := Option.some.inj (hpool.symm.trans hknown)
  obtain rfl : own = id := Option.some.inj (hown.symm.trans hid)
  obtain ⟨hfrozen, hmodified, hsource, -⟩ := EditableClass.of_parse_eq_ok hparse
  have hbytes : cls.bytes = bytes := by rw [EditableClass.bytes, hmodified, ← hsource]; rfl
  have hthawed : cls.defrost = cls := by rw [EditableClass.defrost, ← hfrozen]
  have hput : workspace.classes.setIfInBounds own cls.defrost = workspace.classes := by
    obtain ⟨hlt, rfl⟩ := Array.getElem?_eq_some_iff.mp hcls
    rw [hthawed, Array.setIfInBounds, dif_pos hlt, Array.set_getElem_self]
  refine (edit_meets hcls).imp ?_
  rintro outcome after ⟨rfl, rfl⟩
  exact ⟨hbytes, congrArg (fun classes ↦ { workspace with classes }) hput⟩

/-- A workspace since whose last renewal nothing was edited. -/
abbrev Untouched (access : Access World Loader) (contents : Contents Loader)
    (record : Registry Loader) (workspace : Workspace Loader) : Prop :=
  Fresh access contents record (fun _ ↦ False) workspace

/-- Nothing but look-ups lies between one workspace and another. -/
abbrev Extends (access : Access World Loader) (contents : Contents Loader)
    (record : Registry Loader) (before after : Workspace Loader) : Prop :=
  Grows access contents record (fun _ ↦ False) before after

/-- A definition that carries the bytes which the class is read from. -/
def Faithful (instrumentation : Instrumentation World Loader Class) (contents : Contents Loader)
    (workspace : Workspace Loader) (entry : Class × Bytes) : Prop :=
  ∃ name, instrumentation.Names entry.1 name ∧
    Pristine contents workspace (ClassName.dotted name) entry.2

theorem Faithful.mono {entry : Class × Bytes}
    (h : Faithful instrumentation contents workspace entry)
    (hextends : Extends access contents record workspace after) :
    Faithful instrumentation contents after entry := by
  obtain ⟨name, hnames, hpristine⟩ := h
  exact ⟨name, hnames, hextends.keeps _ _ not_false hpristine⟩

section

variable (hcalm : access.Calm) (hmachine : instrumentation.Calm access)
  (h : Untouched access contents record workspace)
include hcalm hmachine h

theorem sourceBytes_ends (cls : Class) (name : String) :
    Ends (access.Having contents) (sourceBytes access instrumentation cls name) workspace
      (fun bytes after ↦ Extends access contents record workspace after ∧
        Pristine contents after (ClassName.dotted name) bytes)
      (fun _ after ↦ Extends access contents record workspace after) := by
  refine ends_bind ((ask_ends (hmachine.classLoader cls)).imp ?_ ?_)
  · rintro loader after ⟨-, rfl⟩
    refine ends_bind ((getClassFor_ends hcalm h loader name).imp ?_ fun _ _ hafter ↦ hafter)
    rintro id after ⟨hafter, hid⟩
    obtain ⟨bytes, hpristine⟩ := hafter.fresh.pristine _ id hid not_false
    refine (serialize_ends hid hpristine).imp ?_ fun _ _ ↦ False.elim
    rintro answer last ⟨rfl, rfl⟩
    exact ⟨hafter, hpristine⟩
  · rintro failure after rfl
    exact ⟨h, .refl after⟩

theorem definition_ends (index : Nat) (cls : Class) :
    Ends (access.Having contents) (definition access instrumentation index cls) workspace
      (fun entry after ↦ Extends access contents record workspace after ∧
        entry.1 = cls ∧ Faithful instrumentation contents after entry)
      (fun _ after ↦ Extends access contents record workspace after) := by
  have hname : Ends (access.Having contents) (ask (instrumentation.className cls)) workspace
      (fun name after ↦ instrumentation.Names cls name ∧ after = workspace)
      (fun _ after ↦ Extends access contents record workspace after) := by
    refine (ask_ends (hmachine.className cls)).imp (fun _ _ hend ↦ hend) ?_
    rintro failure after rfl
    exact ⟨h, .refl after⟩
  refine ends_bind ((about_ends _ hname).imp ?_ fun _ _ hafter ↦ hafter)
  rintro name after ⟨hnames, rfl⟩
  refine ends_bind ((about_ends name (sourceBytes_ends hcalm hmachine h cls name)).imp ?_
    fun _ _ hafter ↦ hafter)
  rintro bytes after ⟨hafter, hpristine⟩
  exact ends_pure ⟨hafter, rfl, name, hnames, hpristine⟩

end

/-! ### A batch of classes -/

theorem definitions_ends (hcalm : access.Calm) (hmachine : instrumentation.Calm access)
    (h : Untouched access contents record workspace) (index : Nat) (classes : List Class) :
    Ends (access.Having contents) (definitions access instrumentation index classes) workspace
      (fun batch after ↦ Extends access contents record workspace after ∧
        batch.map Prod.fst = classes ∧
          ∀ entry ∈ batch, Faithful instrumentation contents after entry)
      (fun _ after ↦ Extends access contents record workspace after) := by
  induction classes generalizing workspace index with
  | nil => exact ends_pure ⟨⟨h, .refl workspace⟩, rfl, nofun⟩
  | cons cls rest ih =>
    refine ends_bind ((definition_ends hcalm hmachine h index cls).imp ?_ fun _ _ hafter ↦ hafter)
    rintro entry after ⟨hafter, rfl, hentry⟩
    refine ends_bind ((ih hafter.fresh (index + 1)).imp ?_ fun _ _ hlast ↦ hafter.trans hlast)
    rintro batch last ⟨hlast, rfl, hbatch⟩
    exact ends_pure ⟨hafter.trans hlast, rfl, List.forall_mem_cons.mpr
      ⟨hentry.mono hlast, hbatch⟩⟩

/-- Renewing makes any workspace an untouched one, whatever happened to it. -/
theorem untouched_renew (workspace : Workspace Loader) :
    Untouched access contents (workspace.registry.renew true)
      { workspace with pool := none, registry := workspace.registry.renew true } where
  unbuilt _ := rfl
  replays := nofun
  read := nofun
  unshared := nofun
  pristine := nofun

end Redefinition

end ClassWeaver
