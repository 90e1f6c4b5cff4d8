import ClassWeaver.Proofs.Unmodified
import ClassWeaver.Proofs.Workspace.Chains

/-!
What a rewrite that fails leaves behind.

A frozen class is defrosted before it is edited, and only the edit is a unit that fails as a whole.
So the file of the class is put back, and whether the class counts as modified, but not that it was
frozen; nor what the edit has done to that. A chain makes of a class what its transformers make of
it one after the other (`woven`), so that a transformer that fails might as well not be there if it
leaves the class as frozen as it was. `restored_of_failed` says both.
-/

set_option autoImplicit false
set_option relaxedAutoImplicit false

namespace ClassWeaver.Rewriting

open ClassFile Code Search Workspace ClassEdit

variable {World Loader : Type}

/-! ### What the transformers of a chain make of a class -/

/-- The last bytes that the transformers make of the class, if any, and what they leave of it. -/
def woven (loader : Option Loader) (name : String) :
    List (Transformer Loader) → EditableClass → Option Bytes × EditableClass
  | [], cls => (none, cls)
  | transformer :: rest, cls =>
    if transformer.accept loader name then
      let ended := transformer.weave.run.run cls
      let later := woven loader name rest ended.2
      (later.1.or (contributed ended.1), later.2)
    else woven loader name rest cls

/-- In the workspace, the chain gives the bytes, and it leaves the class as `made` has it. -/
def Yields (worlds : World → Prop) (access : Access World Loader) (loader : Option Loader)
    (name : String) (workspace : Workspace Loader) (chain : List (Transformer Loader))
    (made : Option Bytes × EditableClass) : Prop :=
  Meets worlds (transformChain access loader name chain) workspace fun answer last ↦
    answer = made.1 ∧ Finds worlds access loader name last made.2

section Chain

variable {worlds : World → Prop} {access : Access World Loader} {loader : Option Loader}
  {name : String} {workspace : Workspace Loader} {cls : EditableClass}

theorem woven_cons_of_accept {transformer : Transformer Loader} (rest : List (Transformer Loader))
    (haccept : transformer.accept loader name = true) (cls : EditableClass) :
    woven loader name (transformer :: rest) cls =
      ((woven loader name rest (transformer.weave.run.run cls).2).1.or
        (contributed (transformer.weave.run.run cls).1),
      (woven loader name rest (transformer.weave.run.run cls).2).2) := by
  rw [woven, if_pos haccept]

theorem woven_cons_of_reject {transformer : Transformer Loader} (rest : List (Transformer Loader))
    (hreject : ¬transformer.accept loader name = true) (cls : EditableClass) :
    woven loader name (transformer :: rest) cls = woven loader name rest cls := by
  rw [woven, if_neg hreject]

theorem yields_woven (chain : List (Transformer Loader))
    (h : Finds worlds access loader name workspace cls) :
    Yields worlds access loader name workspace chain (woven loader name chain cls) := by
  induction chain generalizing workspace cls with
  | nil => exact meets_pure ⟨rfl, h⟩
  | cons transformer rest ih =>
    refine transformChain_cons_meets ?_
    by_cases haccept : transformer.accept loader name = true
    · rw [woven_cons_of_accept rest haccept]
      refine (transform_meets_of_finds h haccept).imp ?_
      rintro result after ⟨rfl, hfinds⟩
      refine (ih hfinds).imp ?_
      rintro answer last ⟨rfl, hlast⟩
      exact ⟨rfl, hlast⟩
    · rw [woven_cons_of_reject rest haccept, transform, if_neg haccept]
      refine meets_pure ((ih h).imp ?_)
      rintro answer last ⟨rfl, hlast⟩
      exact ⟨Option.or_none, hlast⟩

theorem woven_append (front back : List (Transformer Loader)) (cls : EditableClass) :
    woven loader name (front ++ back) cls =
      ((woven loader name back (woven loader name front cls).2).1.or
          (woven loader name front cls).1,
        (woven loader name back (woven loader name front cls).2).2) := by
  induction front generalizing cls with
  | nil => exact Prod.ext Option.or_none.symm rfl
  | cons transformer rest ih =>
    rw [List.cons_append]
    by_cases haccept : transformer.accept loader name = true
    · rw [woven_cons_of_accept _ haccept, woven_cons_of_accept _ haccept, ih]
      exact Prod.ext Option.or_assoc rfl
    · rw [woven_cons_of_reject _ haccept, woven_cons_of_reject _ haccept, ih]

/-- A transformer that fails and leaves the class as it was is not noticed. -/
theorem woven_of_failed {front back : List (Transformer Loader)} {transformer : Transformer Loader}
    {failure : Failure} (haccept : transformer.accept loader name = true)
    (hrun : transformer.weave.run.run (woven loader name front cls).2 =
      (.error failure, (woven loader name front cls).2)) :
    woven loader name (front ++ transformer :: back) cls =
      woven loader name (front ++ back) cls := by
  rw [woven_append, woven_append, woven_cons_of_accept back haccept, hrun]
  exact Prod.ext (congrArg (Option.or · _) Option.or_none) rfl

end Chain

/-! ### The bundled rewrites -/

theorem composed_ofExcept {discipline : Discipline} {α : Type} (result : Except Failure α) :
    Composed discipline (ClassEdit.ofExcept result) := by
  cases result with
  | ok answer => exact .pure answer
  | error failure => exact .throw failure

theorem composed_selected (selector : String) (change : Member → BodyEdit Id Unit) :
    Composed .free (do
      let index ← ClassEdit.ofExcept ((← current).findMethod selector)
      editMethod index change) :=
  .bind .current fun _ ↦ .bind (composed_ofExcept _) fun index ↦ .editMethod index change

theorem composed_editMethods (factory : Factory) (indices : List Nat) :
    Composed .free (factory.editMethods indices) := by
  induction indices with
  | nil => exact .pure false
  | cons index rest ih => exact .bind (.editMethod index _) fun _ ↦ .bind ih fun _ ↦ .pure _

theorem composed_edit (rewrite : Rewrite) : Composed .free rewrite.edit := by
  cases rewrite with
  | increment increment => exact composed_selected increment.method _
  | factory factory => exact .bind .current fun _ ↦ composed_editMethods factory _
  | wrapper wrapper => exact composed_selected wrapper.method _

/-! ### Edits that fail -/

section Failed

variable (World Loader) {discipline : Discipline} {policy : FrozenPolicy} {edit : ClassEdit Id Bool}
  {cls after : EditableClass} {failure : Failure}

/-- What fails is the edit of the open class. -/
theorem exists_left_of_failed
    (hrun : (editUnlessFrozen policy edit).run.run cls = (.error failure, after)) :
    (policy = .skip → cls.frozen = false) ∧
      ∃ left, edit.run.run cls.defrost = (.error failure, left) ∧
        after = { left with file := cls.file, modified := cls.modified } := by
  rw [editUnlessFrozen_run] at hrun
  split at hrun
  · cases hrun
  rename_i hopen
  refine ⟨?_, ?_⟩
  · rintro rfl
    cases hfrozen : cls.frozen with
    | true => exact absurd (by rw [hfrozen]; rfl) hopen
    | false => rfl
  · rcases hran : edit.run.run cls.defrost with ⟨outcome, left⟩
    rw [hran] at hrun
    match outcome, hrun with
    | .error _, hrun =>
      cases hrun
      exact ⟨left, rfl, rfl⟩
    | .ok true, hrun => cases hrun
    | .ok false, hrun => cases hrun

/-- A rewrite fails only if its edit does, and skips frozen classes if it is to. It has then put
everything back but whether the class is frozen: that is as the edit has left it, to which the class
was open. So if the edit spares the rest of the class, the class is as it was if and only if it was
not frozen; and if it is as frozen as it was, a chain gives the same bytes and leaves the same class
as it would without the transformer. -/
theorem restored_of_failed (hcomposed : Composed discipline edit)
    (hrun : (editUnlessFrozen policy edit).run.run cls = (.error failure, after)) :
    (policy = .skip → cls.frozen = false) ∧
    (∃ left, edit.run.run cls.defrost = (.error failure, left) ∧
      after = { cls with frozen := left.frozen }) ∧
    (edit.Spares cls.defrost → (after = cls ↔ cls.frozen = false)) ∧
    ∀ (worlds : World → Prop) (access : Access World Loader) (loader : Option Loader)
      (name : String) (workspace : Workspace Loader) (start : EditableClass)
      (front back : List (Transformer Loader)) (transformer : Transformer Loader),
      Finds worlds access loader name workspace start →
        transformer.accept loader name = true → transformer.weave = editUnlessFrozen policy edit →
        (woven loader name front start).2 = cls → after.frozen = cls.frozen →
          let made := woven loader name (front ++ back) start
          Yields worlds access loader name workspace (front ++ transformer :: back) made ∧
            Yields worlds access loader name workspace (front ++ back) made := by
  obtain ⟨hskip, left, hleft, hafter⟩ := exists_left_of_failed hrun
  have hfollows := hcomposed.keeps_outline.follows hleft
  have hrestored : after = { cls with frozen := left.frozen } := by
    rw [hafter, hfollows.name, hfollows.source]
    rfl
  refine ⟨hskip, ⟨left, hleft, hrestored⟩, fun hspares ↦ ?_, ?_⟩
  · unfold Spares at hspares
    rw [hleft] at hspares
    have hopen : left.frozen = false := hspares.frozen
    rw [hrestored, hopen]
    exact ⟨fun heq ↦ congrArg EditableClass.frozen heq.symm, fun h ↦ cls.defrost_of_thawed h⟩
  · intro worlds access loader name workspace start front back transformer hfinds haccept hweave
      hbefore hfrozen
    have hsame : after = cls := by
      rw [hrestored] at hfrozen ⊢
      rw [show left.frozen = cls.frozen from hfrozen]
    subst hsame
    have hfailed : transformer.weave.run.run (woven loader name front start).2 =
        (.error failure, (woven loader name front start).2) := by
      rw [hweave, hbefore, hrun]
    refine ⟨?_, yields_woven _ hfinds⟩
    rw [← woven_of_failed haccept hfailed]
    exact yields_woven _ hfinds

/-- An increment in a method that the class does not have. -/
def missing (policy : FrozenPolicy) : Rewrite :=
  .increment ⟨"A", "n", 1, policy⟩

/-- The class is open, and the increment behind the one that fails is made of it. -/
theorem restored_of_failed_missing :
    (∃ failure, (editUnlessFrozen .skip (missing .skip).edit).run.run counter =
      (.error failure, counter)) ∧
    Yields (fun _ ↦ True) poolOnly none "A" pooled
      [(missing .skip).transformer, (counting 1).transformer] (some counted.bytes, counted) := by
  have hrun : (editUnlessFrozen .skip (missing .skip).edit).run.run counter =
      (.error (.memberNotFound "A" "method 'n'"), counter) := rfl
  obtain ⟨-, -, -, hchain⟩ := restored_of_failed Unit Empty (composed_edit (missing .skip)) hrun
  have hfinds : Finds (fun _ ↦ True) poolOnly none "A" pooled counter :=
    finds_of_pools ⟨_, rfl, rfl⟩ rfl
  refine ⟨⟨_, hrun⟩, ?_⟩
  exact (hchain _ poolOnly none "A" pooled counter [] [(counting 1).transformer]
    (missing .skip).transformer hfinds rfl rfl rfl rfl).1

/-- Serializes the class and gives up. -/
def serializeAndFail : ClassEdit Id Bool := do
  let _ ← ClassEdit.serialize
  throw (.illegalState (.frozen "A"))

/-- An increment that defrosts the class has failed, and the next one, which skips frozen classes,
is made of the class; without the first, it is not. And an open class is frozen by an edit that
serializes it and fails. -/
theorem not_restored_missing :
    (∃ failure after, (editUnlessFrozen .defrost (missing .defrost).edit).run.run counted =
      (.error failure, after) ∧ counted.frozen = true ∧ after.frozen = false) ∧
    (((transformChain poolOnly none "A" [(missing .defrost).transformer,
      (counting 2).transformer]).run { pooled with classes := #[counted] }).run ()).1.1 ≠ none ∧
    (((transformChain poolOnly none "A" [(counting 2).transformer]).run
      { pooled with classes := #[counted] }).run ()).1.1 = none ∧
    ∃ failure after, (editUnlessFrozen .skip serializeAndFail).run.run counter =
      (.error failure, after) ∧ counter.frozen = false ∧ after.frozen = true :=
  ⟨⟨_, _, rfl, rfl, rfl⟩, nofun, rfl, _, _, rfl, rfl, rfl⟩

end Failed

end ClassWeaver.Rewriting
