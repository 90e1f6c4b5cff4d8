import ClassWeaver.Code.Editor
import ClassWeaver.Proofs.Code.Tables
import Mathlib.Logic.Relation

/-!
What a relocation leaves of a body, also when it stops half way.

Some rows of the tables have moved by then and others have not. They are still the same rows, of the
same kinds and in the same order (`KeepsRows`), and as long as not all of them have moved, the code
is the old one (`stopsWithin_relocateBody`). So a body whose edits were not applied to the end has
tables that were disturbed, but the instructions that it had (`disturbed_of_apply`).
-/

set_option autoImplicit false
set_option relaxedAutoImplicit false

namespace ClassWeaver

/-! ### Attempts that may have been stopped -/

namespace Attempt

variable {ε α β γ : Type}

/-- An attempt in two parts was stopped in the first of them, or goes on with the second. -/
theorem forall_andThen {motive : Attempt ε α → Prop} {attempt : Attempt ε α}
    {next : α → Attempt ε α} (hstopped : motive attempt) (hnext : motive (next attempt.value)) :
    motive (attempt.andThen next) := by
  unfold andThen
  split
  · exact hstopped
  · exact hnext

/-- What no change concerns is the same behind an attempt, however far it went. -/
theorem measure_update (measure : α → γ) {value : α} {part : Except ε β} {put : β → α}
    (hput : ∀ result, measure (put result) = measure value) :
    measure (update value part put).value = measure value := by
  cases part with
  | error fault => rfl
  | ok result => exact hput result

theorem measure_andThen (measure : α → γ) {attempt : Attempt ε α} {next : α → Attempt ε α}
    (hnext : ∀ value, measure (next value).value = measure value) :
    measure (attempt.andThen next).value = measure attempt.value :=
  @forall_andThen _ _ (fun ended ↦ measure ended.value = measure attempt.value) _ _ rfl (hnext _)

theorem forall₂_each {relation : α → α → Prop} {change : α → Attempt ε α}
    (hrefl : ∀ item, relation item item) (hchange : ∀ item, relation item (change item).value)
    (items : List α) : List.Forall₂ relation items (each change items).value := by
  induction items with
  | nil => exact .nil
  | cons item rest ih =>
    unfold each
    dsimp only
    split
    · exact .cons (hchange item) (List.forall₂_same.mpr fun other _ ↦ hrefl other)
    · exact .cons (hchange item) ih

end Attempt

namespace Code

open ClassFile

/-! ### Rows that are kept -/

/-- Offsets may go anywhere. -/
def Anywhere (_old _new : Nat) : Prop :=
  True

/-- The tables have their rows, each naming offsets that its own may go to; some attributes may be
gone. -/
structure KeepsRows (goes : Nat → Nat → Prop) (before after : MethodBody) : Prop where
  handlers : List.Forall₂ (HandlerMoved goes) before.handlers after.handlers
  attributes : ∃ kept, kept.Sublist before.attributes ∧
    List.Forall₂ (AttributeMoved goes) kept after.attributes

theorem BodyMoved.keepsRows {goes : Nat → Nat → Prop} {before after : MethodBody}
    (h : BodyMoved goes before after) : KeepsRows goes before after :=
  ⟨h.handlers, _, List.filter_sublist, h.attributes⟩

section Anywhere

variable {relocation : Relocation} {removed : Std.TreeSet Nat}

theorem HandlerMoved.refl (row : ExceptionHandler) : HandlerMoved Anywhere row row :=
  ⟨trivial, trivial, trivial, rfl⟩

theorem TypeMoved.refl (type : VerificationType) : TypeMoved Anywhere type type := by
  cases type with
  | uninitialized offset => exact trivial
  | _ => rfl

theorem typesMoved_refl (types : List VerificationType) :
    List.Forall₂ (TypeMoved Anywhere) types types :=
  List.forall₂_same.mpr fun type _ ↦ .refl type

theorem FrameMoved.refl (frame : StackMapFrame) : FrameMoved Anywhere frame frame := by
  cases frame with
  | same delta => exact .same _ _
  | sameLocals1 delta stack => exact .sameLocals1 _ _ (.refl stack)
  | sameLocals1Extended delta stack => exact .sameLocals1Extended _ _ (.refl stack)
  | chop delta count => exact .chop _ _ _
  | sameExtended delta => exact .sameExtended _ _
  | append delta locals => exact .append _ _ (typesMoved_refl locals)
  | full delta locals stack => exact .full _ _ (typesMoved_refl locals) (typesMoved_refl stack)

/-- There is a position for each frame. -/
theorem forall₂_framePositions {before after : List StackMapFrame} {previous last : Option Nat}
    (h : List.Forall₂ (FrameMoved Anywhere) before after) :
    List.Forall₂ Anywhere (framePositions previous before) (framePositions last after) := by
  induction h generalizing previous last with
  | nil => exact .nil
  | cons _ _ ih => exact .cons trivial ih

theorem AttributeMoved.refl (attr : Attribute) : AttributeMoved Anywhere attr attr := by
  refine ⟨rfl, ?_⟩
  obtain ⟨name, content⟩ := attr
  cases content with
  | lineNumbers rows => exact List.forall₂_same.mpr fun _ _ ↦ ⟨trivial, rfl⟩
  | localVariables rows | localVariableTypes rows =>
    exact List.forall₂_same.mpr fun _ _ ↦ ⟨trivial, trivial, rfl, rfl, rfl⟩
  | stackMap frames =>
    have hframes := List.forall₂_same.mpr fun (frame : StackMapFrame) (_ : frame ∈ frames) ↦
      FrameMoved.refl frame
    exact ⟨hframes, forall₂_framePositions hframes⟩
  | _ => rfl

theorem KeepsRows.refl (body : MethodBody) : KeepsRows Anywhere body body :=
  ⟨List.forall₂_same.mpr fun row _ ↦ .refl row, _, .refl _,
    List.forall₂_same.mpr fun attr _ ↦ .refl attr⟩

/-! ### What relocations keep -/

theorem handler_kept (row : ExceptionHandler) :
    HandlerMoved Anywhere row (relocation.handler row).value := by
  have hupdate {part : Except Fault UInt16} {row : ExceptionHandler}
      {put : UInt16 → ExceptionHandler} (hput : ∀ offset, (put offset).catchType = row.catchType) :
      (Attempt.update row part put).value.catchType = row.catchType :=
    Attempt.measure_update ExceptionHandler.catchType hput
  refine ⟨trivial, trivial, trivial, ?_⟩
  calc (relocation.handler row).value.catchType
      = ((Attempt.update row (relocation.mapWord row.start) fun start ↦
          { row with start }).andThen fun row ↦ Attempt.update row (relocation.mapWord row.stop)
            fun stop ↦ { row with stop }).value.catchType :=
        Attempt.measure_andThen ExceptionHandler.catchType fun _ ↦ hupdate fun _ ↦ rfl
    _ = (Attempt.update row (relocation.mapWord row.start) fun start ↦
          { row with start }).value.catchType :=
        Attempt.measure_andThen ExceptionHandler.catchType fun _ ↦ hupdate fun _ ↦ rfl
    _ = row.catchType := hupdate fun _ ↦ rfl

theorem lineNumber_kept (row : LineNumber) :
    LineMoved Anywhere row (relocation.lineNumber row).value :=
  ⟨trivial, Attempt.measure_update LineNumber.line fun _ ↦ rfl⟩

theorem localVariable_kept (row : LocalVariable) :
    VariableMoved Anywhere row (relocation.localVariable row).value :=
  ⟨trivial, trivial, Attempt.measure_update LocalVariable.name fun _ ↦ rfl,
    Attempt.measure_update LocalVariable.type fun _ ↦ rfl,
    Attempt.measure_update LocalVariable.index fun _ ↦ rfl⟩

theorem verificationType_kept (type : VerificationType) : TypeMoved Anywhere type
    (Attempt.update type (relocation.verificationType removed type) id).value := by
  cases htype : relocation.verificationType removed type with
  | error fault => exact .refl type
  | ok moved =>
    cases type with
    | uninitialized offset =>
      simp only [Relocation.verificationType] at htype
      split at htype
      · cases htype
      · obtain ⟨word, -, htype⟩ := except_bind_eq_ok.mp htype
        cases htype
        exact trivial
    | _ =>
      cases htype
      rfl

theorem frameTypes_kept (frame : StackMapFrame) (delta : UInt16) :
    FrameMoved Anywhere frame (relocation.frameTypes removed (frame.setDelta delta)).value := by
  have hsame : (frame.setDelta delta).types = frame.types := by cases frame <;> rfl
  refine frameMoved_setTypes delta ?_
  rw [hsame]
  exact Attempt.forall₂_each TypeMoved.refl verificationType_kept frame.types

theorem frames_kept (previous : Option Relocation.FramePosition) (rows : List StackMapFrame) :
    List.Forall₂ (FrameMoved Anywhere) rows (relocation.frames removed previous rows).value := by
  induction rows generalizing previous with
  | nil => exact .nil
  | cons frame rest ih =>
    have hrest := List.forall₂_same.mpr fun (other : StackMapFrame) (_ : other ∈ rest) ↦
      FrameMoved.refl other
    unfold Relocation.frames
    dsimp only
    split
    · exact .cons (.refl frame) hrest
    · split
      · exact .cons (frameTypes_kept frame _) hrest
      · exact .cons (frameTypes_kept frame _) (ih _)

theorem attributeContent_kept (content : AttributeContent) :
    ContentMoved Anywhere content (relocation.attributeContent removed content).value := by
  cases content with
  | lineNumbers rows =>
    exact Attempt.forall₂_each (fun _ ↦ ⟨trivial, rfl⟩) lineNumber_kept rows
  | localVariables rows | localVariableTypes rows =>
    exact Attempt.forall₂_each (fun _ ↦ ⟨trivial, trivial, rfl, rfl, rfl⟩) localVariable_kept rows
  | stackMap rows =>
    have hframes : List.Forall₂ (FrameMoved Anywhere) rows
        (relocation.frames removed none rows).value := frames_kept none rows
    exact ⟨hframes, forall₂_framePositions hframes⟩
  | _ => rfl

theorem attribute_kept (attr : Attribute) : AttributeMoved Anywhere attr
    ((relocation.attributeContent removed attr.content).within
      fun content ↦ { attr with content }).value :=
  ⟨rfl, attributeContent_kept attr.content⟩

end Anywhere

/-- However far the attempt went, the tables of the body have kept their rows; if it was stopped,
the body has kept its code. -/
structure StopsWithin (body : MethodBody) (attempt : Attempt Fault MethodBody) : Prop where
  rows : KeepsRows Anywhere body attempt.value
  code : attempt.failure ≠ none → attempt.value.code = body.code

theorem stopsWithin_relocateBody (body : MethodBody) (instructions : List Instruction)
    (removed : Std.TreeSet Nat) (extraStack : UInt16) :
    StopsWithin body (relocateBody body instructions removed extraStack) := by
  unfold relocateBody
  split
  · exact ⟨.refl body, fun _ ↦ rfl⟩
  · rename_i code relocation _
    have hhandlers : List.Forall₂ (HandlerMoved Anywhere) body.handlers
        (Attempt.each relocation.handler body.handlers).value :=
      Attempt.forall₂_each .refl handler_kept body.handlers
    have hattributes := Attempt.forall₂_each AttributeMoved.refl
      (@attribute_kept relocation removed) (body.attributes.filter (!annotatesTypes ·))
    have hsame := List.forall₂_same.mpr fun (attr : Attribute) (_ : attr ∈ body.attributes) ↦
      AttributeMoved.refl attr
    rw [Attempt.andThen_assoc]
    refine Attempt.forall_andThen ?_ (Attempt.forall_andThen ?_ ?_)
    · exact ⟨⟨hhandlers, _, .refl _, hsame⟩, fun _ ↦ rfl⟩
    · exact ⟨⟨hhandlers, _, List.filter_sublist, hattributes⟩, fun _ ↦ rfl⟩
    · exact ⟨⟨hhandlers, _, List.filter_sublist, hattributes⟩, fun h ↦ absurd rfl h⟩

/-- The body has the code that it had; rows of its tables may have moved, and attributes may be
gone. -/
structure BodyDisturbed (before after : MethodBody) : Prop where
  code : after.code = before.code
  rows : Relation.ReflTransGen (KeepsRows Anywhere) before after

theorem BodyDisturbed.trans {before between after : MethodBody} (h : BodyDisturbed before between)
    (hlater : BodyDisturbed between after) : BodyDisturbed before after :=
  ⟨hlater.code.trans h.code, h.rows.trans hlater.rows⟩

section Applied

variable {editor : Editor} (body : MethodBody) (hmodified : editor.isModified = true)

include hmodified

theorem stopsWithin_apply : StopsWithin body (editor.apply body) := by
  rw [Editor.apply, if_pos hmodified]
  exact stopsWithin_relocateBody body editor.edited editor.removed editor.extraStack

/-- What is left of a body when its edits are not applied to the end. -/
theorem disturbed_of_apply (h : (editor.apply body).failure ≠ none) :
    BodyDisturbed body (editor.apply body).value :=
  ⟨(stopsWithin_apply body hmodified).code h, .single (stopsWithin_apply body hmodified).rows⟩

end Applied

end Code

end ClassWeaver
