import ClassWeaver.Options
import ClassWeaver.Proofs.EditableClass
import ClassWeaver.Transformer.Chain

/-!
What a transformer that skips frozen classes makes of a class.

The bundled edits change nothing of a class but its file and whether it counts as modified
(`Spares`), whether they fail or not. So such a transformer leaves a frozen class alone
(`skip_run_of_frozen`), and of any other it makes what its edit makes of it, freezing it if that
reports a change and putting everything back if it fails (`skip_run_of_thawed`). Other edits of a
frozen class come to nothing either, as long as they do not defrost it (`SparesFrozen`).
-/

set_option autoImplicit false
set_option relaxedAutoImplicit false

namespace ClassWeaver

open ClassFile Code

/-! ### Edits that spare the rest of a class -/

/-- Classes that differ in nothing but their files and whether they count as modified. -/
structure EditableClass.Alike (before after : EditableClass) : Prop where
  name : after.name = before.name
  source : after.source = before.source
  frozen : after.frozen = before.frozen

namespace ClassEdit

variable {α β : Type}

/-- Whatever comes of it, the edit changes nothing of the class but its file and whether it counts
as modified. -/
def Spares (edit : ClassEdit Id α) (cls : EditableClass) : Prop :=
  cls.Alike (edit.run.run cls).2

variable {cls : EditableClass} {edit : ClassEdit Id α}

theorem spares_of_eq (h : (edit.run.run cls).2 = cls) : edit.Spares cls := by
  rw [Spares, h]
  exact ⟨rfl, rfl, rfl⟩

theorem Spares.bind {next : α → ClassEdit Id β} (h : edit.Spares cls)
    (hnext : ∀ answer between, edit.run.run cls = (.ok answer, between) →
      (next answer).Spares between) : (edit >>= next).Spares cls := by
  unfold Spares at h ⊢
  rw [edit_bind_run]
  rcases hran : edit.run.run cls with ⟨outcome, between⟩
  rw [hran] at h
  cases outcome with
  | error failure => exact h
  | ok answer =>
    have hlater := hnext answer between hran
    exact ⟨hlater.name.trans h.name, hlater.source.trans h.source, hlater.frozen.trans h.frozen⟩

/-- The class itself is read first. -/
theorem spares_current_bind {next : EditableClass → ClassEdit Id β} (h : (next cls).Spares cls) :
    (ClassEdit.current >>= next).Spares cls := by
  refine Spares.bind (spares_of_eq rfl) fun answer between hcurrent ↦ ?_
  cases hcurrent
  exact h

theorem spares_editMethod (index : Nat) (change : Member → BodyEdit Id Unit) :
    (editMethod index change).Spares cls := by
  have hends : (editMethod index change).Ends cls fun _ after ↦ cls.Alike after := by
    refine (touches_editMethod index change cls).imp fun _ after htouched ↦ ?_
    cases htouched with
    | untouched => exact ⟨rfl, rfl, rfl⟩
    | extended pool => exact ⟨rfl, rfl, rfl⟩
    | moved pool body => exact ⟨rfl, rfl, rfl⟩
    | marked pool body => exact ⟨rfl, rfl, rfl⟩
  exact hends

end ClassEdit

/-! ### The bundled rewrites -/

/-- A change of a class that comes with the library. -/
inductive Rewrite where
  | increment (increment : Increment)
  | factory (factory : Factory)
  | wrapper (wrapper : Wrapper)

namespace Rewrite

def target : Rewrite → String
  | .increment change => change.target
  | .factory change => change.target
  | .wrapper change => change.target

def policy : Rewrite → FrozenPolicy
  | .increment change => change.policy
  | .factory change => change.policy
  | .wrapper change => change.policy

/-- Edits a class and tells whether that changed it. -/
def edit : Rewrite → ClassEdit Id Bool
  | .increment change => change.editClass
  | .factory change => change.editClass
  | .wrapper change => change.editClass

def transformer {Loader : Type} : Rewrite → Transformer Loader
  | .increment change => change.transformer
  | .factory change => change.transformer
  | .wrapper change => change.transformer

variable {Loader : Type}

theorem weave_transformer (rewrite : Rewrite) :
    (rewrite.transformer : Transformer Loader).weave =
      editUnlessFrozen rewrite.policy rewrite.edit := by
  cases rewrite <;> rfl

theorem accept_transformer (rewrite : Rewrite) (loader : Option Loader) (name : String) :
    rewrite.transformer.accept loader name = (name == rewrite.target) := by
  cases rewrite <;> rfl

theorem mayAccept_transformer (rewrite : Rewrite) (name : String) :
    (rewrite.transformer : Transformer Loader).mayAccept name = (name == rewrite.target) := by
  cases rewrite <;> rfl

/-- What options ask for is a bundled rewrite that skips frozen classes. -/
theorem exists_rewrite_of_weaving {options : Options} {weaving : Weaving}
    {transformer : Transformer Loader} (h : options.transformer weaving = .ok transformer) :
    ∃ rewrite : Rewrite, rewrite.transformer = transformer ∧ rewrite.policy = .skip := by
  obtain ⟨target, -, h⟩ := except_bind_eq_ok.mp h
  cases weaving with
  | increment =>
    obtain ⟨method, -, h⟩ := except_bind_eq_ok.mp h
    cases h
    exact ⟨.increment _, rfl, rfl⟩
  | factory =>
    obtain ⟨product, -, h⟩ := except_bind_eq_ok.mp h
    obtain ⟨factory, -, h⟩ := except_bind_eq_ok.mp h
    cases h
    exact ⟨.factory _, rfl, rfl⟩
  | wrapper =>
    obtain ⟨method, -, h⟩ := except_bind_eq_ok.mp h
    obtain ⟨factory, -, h⟩ := except_bind_eq_ok.mp h
    cases h
    exact ⟨.wrapper _, rfl, rfl⟩

theorem exists_rewrites_of_options {options : Options} {chain : List (Transformer Loader)}
    (h : options.transformers = .ok chain) :
    ∃ rewrites : List Rewrite, rewrites.map transformer = chain ∧
      ∀ rewrite ∈ rewrites, rewrite.policy = .skip := by
  have hall := forall₂_of_mapM_eq_ok h
  generalize options.weavings = weavings at hall
  clear h
  induction hall with
  | nil => exact ⟨[], rfl, nofun⟩
  | cons hfirst _ ih =>
    obtain ⟨rewrite, rfl, hskip⟩ := exists_rewrite_of_weaving hfirst
    obtain ⟨others, rfl, hothers⟩ := ih
    exact ⟨rewrite :: others, rfl, List.forall_mem_cons.mpr ⟨hskip, hothers⟩⟩

theorem spares_editMethods (factory : Factory) (indices : List Nat) (cls : EditableClass) :
    (factory.editMethods indices).Spares cls := by
  induction indices generalizing cls with
  | nil => exact ClassEdit.spares_of_eq rfl
  | cons index rest ih =>
    refine (ClassEdit.spares_editMethod index _).bind fun changed between _ ↦ ?_
    exact (ih between).bind fun _ _ _ ↦ ClassEdit.spares_of_eq rfl

/-- A rewrite of one method finds it first. -/
theorem spares_selected (selector : String) (change : Member → BodyEdit Id Unit)
    (cls : EditableClass) :
    ClassEdit.Spares (do
      let index ← ClassEdit.ofExcept ((← ClassEdit.current).findMethod selector)
      ClassEdit.editMethod index change) cls := by
  refine ClassEdit.spares_current_bind ?_
  refine ClassEdit.Spares.bind (ClassEdit.spares_of_eq rfl) fun index between _ ↦ ?_
  exact ClassEdit.spares_editMethod index change

theorem spares_edit (rewrite : Rewrite) (cls : EditableClass) : rewrite.edit.Spares cls := by
  cases rewrite with
  | increment increment => exact spares_selected increment.method _ cls
  | factory factory => exact ClassEdit.spares_current_bind (spares_editMethods factory _ cls)
  | wrapper wrapper => exact spares_selected wrapper.method _ cls

end Rewrite

/-! ### Edits that spare frozen classes -/

namespace ClassEdit

variable {α β : Type} {edit : ClassEdit Id α}

/-- Of a frozen class, the edit changes nothing at all. -/
def SparesFrozen (edit : ClassEdit Id α) : Prop :=
  ∀ cls, cls.frozen = true → (edit.run.run cls).2 = cls

theorem SparesFrozen.bind {next : α → ClassEdit Id β} (h : edit.SparesFrozen)
    (hnext : ∀ answer, (next answer).SparesFrozen) : (edit >>= next).SparesFrozen := by
  intro cls hfrozen
  have hfirst := h cls hfrozen
  rw [edit_bind_run]
  rcases hran : edit.run.run cls with ⟨outcome, between⟩
  rw [hran] at hfirst
  obtain rfl : between = cls := hfirst
  cases outcome with
  | error failure => rfl
  | ok answer => exact hnext answer between hfrozen

/-- What is done behind the guard is refused for a frozen class. -/
theorem guarded_run_of_frozen {cls : EditableClass} (hfrozen : cls.frozen = true)
    (next : Unit → ClassEdit Id β) :
    ((requireThawed : ClassEdit Id Unit) >>= next).run.run cls =
      (.error (.illegalState (.frozen cls.name)), cls) := by
  obtain ⟨name, file, source, frozen, modified⟩ := cls
  obtain rfl : frozen = true := hfrozen
  rfl

theorem sparesFrozen_guarded (next : Unit → ClassEdit Id β) :
    ((requireThawed : ClassEdit Id Unit) >>= next).SparesFrozen := fun _ hfrozen ↦
  congrArg Prod.snd (guarded_run_of_frozen hfrozen next)

theorem sparesFrozen_editMethod (index : Nat) (edit : Member → BodyEdit Id Unit) :
    (editMethod index edit).SparesFrozen :=
  sparesFrozen_guarded _

theorem sparesFrozen_changeFile (change : StateT ClassFile Id α) :
    (changeFile change).SparesFrozen :=
  sparesFrozen_guarded _

theorem sparesFrozen_serialize : (serialize : ClassEdit Id Bytes).SparesFrozen := by
  rintro ⟨name, file, source, frozen, modified⟩ (rfl : frozen = true)
  rfl

end ClassEdit

/-! ### Skipping frozen classes -/

section Skip

variable {cls : EditableClass} {edit : ClassEdit Id Bool}

theorem EditableClass.Alike.restore {before after : EditableClass} (h : before.Alike after) :
    { after with file := before.file, modified := before.modified } = before := by
  obtain ⟨hname, hsource, hfrozen⟩ := h
  rw [hname, hsource, hfrozen]

theorem EditableClass.defrost_of_thawed (h : cls.frozen = false) : cls.defrost = cls := by
  rw [defrost, ← h]

/-- An edit that fails in a unit leaves what it has made of the class, but for the file and whether
the class counts as modified. -/
theorem atomically_run_eq {α : Type} (edit : ClassEdit Id α) (cls : EditableClass) :
    (ClassEdit.atomically edit).run.run cls = match edit.run.run cls with
      | (.ok answer, after) => (.ok answer, after)
      | (.error failure, left) =>
        (.error failure, { left with file := cls.file, modified := cls.modified }) := by
  have hstarted : (ClassEdit.current : ClassEdit Id EditableClass).run.run cls = (.ok cls, cls) :=
    rfl
  rw [ClassEdit.atomically, edit_bind_run, hstarted]
  dsimp only
  rw [edit_tryCatch_run]
  rcases edit.run.run cls with ⟨outcome, left⟩
  cases outcome with
  | ok answer => rfl
  | error failure => rfl

theorem atomically_run (h : edit.Spares cls) :
    (ClassEdit.atomically edit).run.run cls = match edit.run.run cls with
      | (.ok answer, after) => (.ok answer, after)
      | (.error failure, _) => (.error failure, cls) := by
  rw [atomically_run_eq]
  unfold ClassEdit.Spares at h
  rcases hran : edit.run.run cls with ⟨outcome, after⟩
  rw [hran] at h
  cases outcome with
  | ok answer => rfl
  | error failure => exact congrArg (Prod.mk _) h.restore

/-- The edit is made of the class as it is open to edits, as a whole or not at all, and a class that
it has changed is frozen. -/
theorem editUnlessFrozen_run (policy : FrozenPolicy) (edit : ClassEdit Id Bool)
    (cls : EditableClass) :
    (editUnlessFrozen policy edit).run.run cls =
      if cls.frozen && policy == .skip then (.ok none, cls)
      else match edit.run.run cls.defrost with
        | (.ok true, after) => (.ok (some after.bytes), { after with frozen := true })
        | (.ok false, after) => (.ok none, after)
        | (.error failure, left) =>
          (.error failure, { left with file := cls.file, modified := cls.modified }) := by
  have hstarted : (ClassEdit.current : ClassEdit Id EditableClass).run.run cls = (.ok cls, cls) :=
    rfl
  have hopened (next : ClassEdit Id (Option Bytes)) :
      (if cls.frozen = true then do ClassEdit.defrost; next else next :
        ClassEdit Id (Option Bytes)).run.run cls = next.run.run cls.defrost := by
    cases hfrozen : cls.frozen with
    | true => rfl
    | false => exact congrArg next.run.run (EditableClass.defrost_of_thawed hfrozen).symm
  rw [editUnlessFrozen, edit_bind_run, hstarted]
  dsimp only
  split
  · rfl
  refine (hopened _).trans ?_
  rw [edit_bind_run, atomically_run_eq]
  rcases edit.run.run cls.defrost with ⟨outcome, after⟩
  cases outcome with
  | error failure => rfl
  | ok answer =>
    cases answer with
    | false => rfl
    | true => rfl

theorem skip_run_of_frozen (h : cls.frozen = true) :
    (editUnlessFrozen .skip edit).run.run cls = (.ok none, cls) := by
  rw [editUnlessFrozen_run, h]
  rfl

theorem skip_run_of_thawed (hspares : edit.Spares cls) (h : cls.frozen = false) :
    (editUnlessFrozen .skip edit).run.run cls = match edit.run.run cls with
      | (.ok true, after) => (.ok (some after.bytes), { after with frozen := true })
      | (.ok false, after) => (.ok none, after)
      | (.error failure, _) => (.error failure, cls) := by
  rw [editUnlessFrozen_run, h, EditableClass.defrost_of_thawed h]
  unfold ClassEdit.Spares at hspares
  rcases hran : edit.run.run cls with ⟨outcome, after⟩
  rw [hran] at hspares
  cases outcome with
  | error failure => exact congrArg (Prod.mk _) hspares.restore
  | ok answer =>
    cases answer with
    | false => rfl
    | true => rfl

end Skip

end ClassWeaver
