import ClassWeaver.Proofs.Code.StackBound
import ClassWeaver.Proofs.Transformer.Increments
import ClassWeaver.Proofs.Transformer.Wrapping

/-!
The room on the operand stack that rewritten bodies ask for.

What stands in front of an assignment to an `int` field once it was replaced needs one slot more
than the assignment found, however many assignments are replaced; and one slot more is what the
body asks for afterwards, unless it has asked for the most slots there are
(`Increment.depthsWithin_reading_iff`). A call in front of an `areturn` needs none
(`Wrapper.depthsWithin_wrapping`).
-/

set_option autoImplicit false
set_option relaxedAutoImplicit false

namespace ClassWeaver

open ClassFile Code

namespace Code

/-! ### What goes into bodies -/

/-- What the instructions do that go into bodies: drop a value, copy one, read an `int` field of an
object, pass a reference to a method that returns one, or add. All others push an `int`. -/
def insertedEffect (instruction : Instruction) : Effect :=
  if instruction.opcode = .pop then ⟨1, 0⟩
  else if instruction.opcode = .dup then ⟨1, 2⟩
  else if instruction.opcode = .getfield then ⟨1, 1⟩
  else if instruction.opcode = .invokestatic then ⟨1, 1⟩
  else if instruction.opcode = .iadd then ⟨2, 1⟩
  else ⟨0, 1⟩

theorem toNat_addStack_one (size : UInt16) :
    (addStack size 1).toNat = min (size.toNat + 1) 65535 := by
  have hlt := size.toNat_lt
  rw [addStack]
  split
  · rename_i hfits
    rw [UInt16.toNat_add, Nat.mod_eq_of_lt hfits]
    change size.toNat + 1 < 65536 at hfits
    change size.toNat + 1 = _
    omega
  · rename_i hfull
    change ¬ size.toNat + 1 < 65536 at hfull
    change 65535 = _
    omega

end Code

namespace Increment

variable {amount : Int32} {pool : ConstantPool} {push : Instruction} {original : List Instruction}
  {editor edited : Editor} {effects : Nat → Effect}

/-! ### Assignments -/

/-- What goes in front of an assignment to an `int` field. -/
def reading (pool : ConstantPool) (push : Instruction) (_index : Nat) (old : Instruction) :
    List Instruction :=
  match assigned? pool old with
  | none => []
  | some field =>
    if old.opcode = .putfield then
      [.plain .pop, .plain .dup, .withConstant .getfield field, push, .plain .iadd]
    else [.plain .pop, .withConstant .getstatic field, push, .plain .iadd]

/-- How many slots an assignment to an `int` field takes: one for the value, and one for an
object. -/
def takes (pool : ConstantPool) (_index : Nat) (old : Instruction) : Nat :=
  match assigned? pool old with
  | none => 0
  | some _ => if old.opcode = .putfield then 2 else 1

/-- How many slots more are needed in front of an instruction. -/
def adds (pool : ConstantPool) (_index : Nat) (old : Instruction) : Nat :=
  if (assigned? pool old).isSome then 1 else 0

/-- Whether instruction `index` assigns to an `int` field. -/
def AssignsAt (pool : ConstantPool) (instructions : List Instruction) (index : Nat) : Prop :=
  ∃ instruction field, instructions[index]? = some instruction ∧
    assigned? pool instruction = some field

/-- Assignments to `int` fields take the value and the object, if there is one, and leave
nothing. -/
def Assigning (pool : ConstantPool) (instructions : List Instruction)
    (effects : Nat → Effect) : Prop :=
  ∀ index instruction field, instructions[index]? = some instruction →
    assigned? pool instruction = some field → effects index = ⟨takes pool index instruction, 0⟩

/-- An instruction that names a field was read with nothing but its pool index. -/
theorem operand_of_assigned {code : Bytes} {old : Instruction} {field : UInt16}
    (hdecode : decode code = .ok original) (hold : old ∈ original)
    (hassigned : assigned? pool old = some field) : old.operand = .constant field := by
  obtain ⟨hwell, -⟩ := readFrom_eq_ok (Nat.le_refl _) (decode_eq_ok_iff.mp hdecode).1
  obtain ⟨hwrites, hfield, -⟩ := assigned?_eq_some.mp hassigned
  obtain ⟨form, hform, hadmits⟩ := hwell old hold
  have hconstant : old.opcode.form? = some .constant := by
    rcases hwrites with hput | hput <;> rw [hput] <;> rfl
  obtain rfl := Option.some.inj (hform.symm.trans hconstant)
  obtain ⟨opcode, operand, origin⟩ := old
  cases hadmits with
  | constant index => exact congrArg Operand.constant (Option.some.inj hfield)

/-- Edits that replace assignments put code in front of them. -/
theorem content_reading {code : Bytes} {old : Instruction} {index : Nat}
    (hdecode : decode code = .ok original) (hold : original[index]? = some old) :
    (inFront (reading pool push) index old).map Instruction.content =
      (incremented pool push index old).map Instruction.content := by
  rw [inFront, reading, incremented]
  cases hassigned : assigned? pool old with
  | none => rfl
  | some field =>
    obtain ⟨hwrites, -, -⟩ := assigned?_eq_some.mp hassigned
    have hcontent : old.content = (old.opcode, .constant field) := congrArg (Prod.mk _)
      (operand_of_assigned hdecode (List.mem_of_getElem? hold) hassigned)
    dsimp only
    split
    · rename_i hput
      rw [List.map_append, List.map_singleton, hcontent, hput]
      rfl
    · rename_i hput
      rw [List.map_append, List.map_singleton, hcontent, hwrites.resolve_left hput]
      rfl

/-! ### What an assignment needs -/

theorem opcode_of_pushed {number : Int32} (h : pushedInt? pool push = some number) :
    push.opcode ≤ .ldcW := by
  by_contra hbeyond
  rw [pushedInt?_of_lt (UInt8.not_le.mp hbeyond)] at h
  cases h

theorem insertedEffect_of_pushed {number : Int32} (h : pushedInt? pool push = some number) :
    insertedEffect push = ⟨0, 1⟩ := by
  have hne {opcode : Opcode} (hlt : Opcode.ldcW < opcode) : push.opcode ≠ opcode := by
    rintro rfl
    exact absurd (opcode_of_pushed h) (UInt8.not_le.mpr hlt)
  rw [insertedEffect, if_neg (hne (by decide)), if_neg (hne (by decide)), if_neg (hne (by decide)),
    if_neg (hne (by decide)), if_neg (hne (by decide))]

theorem fallsThrough_of_pushed {number : Int32} (h : pushedInt? pool push = some number) :
    push.opcode.fallsThrough = true := by
  have hall : ∀ opcode : Fin 20, Opcode.fallsThrough (UInt8.ofNat opcode) = true := by decide
  have hlt : push.opcode.toNat < 20 := Nat.lt_succ_of_le (opcode_of_pushed h)
  have hfalls := hall ⟨_, hlt⟩
  rwa [UInt8.ofNat_toNat] at hfalls

theorem level_onObject : Level 2 1 [⟨1, 0⟩, ⟨1, 2⟩, ⟨1, 1⟩, ⟨0, 1⟩, ⟨2, 1⟩] :=
  ⟨rfl, by decide, ⟨4, by decide, rfl⟩, by decide⟩

theorem level_onStatic : Level 1 1 [⟨1, 0⟩, ⟨0, 1⟩, ⟨0, 1⟩, ⟨2, 1⟩] :=
  ⟨rfl, by decide, ⟨3, by decide, rfl⟩, by decide⟩

/-- What goes in front of an assignment needs what the assignment takes, and one slot more. -/
theorem level_reading (hpushed : insertedEffect push = ⟨0, 1⟩) (index : Nat) (old : Instruction) :
    Level (takes pool index old) (adds pool index old)
      ((reading pool push index old).map insertedEffect) := by
  rw [takes, adds, reading]
  cases assigned? pool old with
  | none => exact level_nil
  | some field =>
    dsimp only
    split
    · have hblock : [Instruction.plain .pop, .plain .dup, .withConstant .getfield field, push,
          .plain .iadd].map insertedEffect =
            [⟨1, 0⟩, ⟨1, 2⟩, ⟨1, 1⟩, insertedEffect push, ⟨2, 1⟩] := rfl
      rw [hpushed] at hblock
      exact hblock ▸ level_onObject
    · have hblock : [Instruction.plain .pop, .withConstant .getstatic field, push,
          .plain .iadd].map insertedEffect =
            [⟨1, 0⟩, ⟨0, 1⟩, insertedEffect push, ⟨2, 1⟩] := rfl
      rw [hpushed] at hblock
      exact hblock ▸ level_onStatic

theorem fallsOnly_reading (hpush : push.FallsOnly) (index : Nat) (old : Instruction) :
    ∀ instruction ∈ reading pool push index old, instruction.FallsOnly := by
  have hput {opcode : Opcode} {operand : Operand} (hnone : operand.targets = [])
      (hfalls : opcode.fallsThrough = true) : Instruction.FallsOnly ⟨opcode, operand, none⟩ :=
    ⟨hnone, hfalls⟩
  rw [reading]
  cases assigned? pool old with
  | none => exact fun _ hmem ↦ absurd hmem List.not_mem_nil
  | some field =>
    dsimp only
    split
    · exact List.forall_mem_cons.mpr ⟨hput rfl rfl, List.forall_mem_cons.mpr ⟨hput rfl rfl,
        List.forall_mem_cons.mpr ⟨hput rfl rfl, List.forall_mem_cons.mpr ⟨hpush,
          List.forall_mem_singleton.mpr (hput rfl rfl)⟩⟩⟩⟩
    · exact List.forall_mem_cons.mpr ⟨hput rfl rfl, List.forall_mem_cons.mpr ⟨hput rfl rfl,
        List.forall_mem_cons.mpr ⟨hpush, List.forall_mem_singleton.mpr (hput rfl rfl)⟩⟩⟩

theorem neutral_reading {larger : ConstantPool} (hpushes : Pushes amount pool larger push)
    (heffects : Assigning pool original effects) :
    Neutral insertedEffect (reading pool push) (takes pool) (adds pool) original effects where
  falls index old _ := fallsOnly_reading
    ⟨hpushes.straight.targets, fallsThrough_of_pushed hpushes.pushed⟩ index old
  level index old _ := level_reading (insertedEffect_of_pushed hpushes.pushed) index old
  enough index old hold := by
    cases hassigned : assigned? pool old with
    | none =>
      rw [takes, hassigned]
      exact Nat.zero_le _
    | some field => rw [heffects index old field hold hassigned]

theorem depthsWithin_reading {larger : ConstantPool} {revised : List Instruction}
    {old new : MethodBody} {limit : Nat} (hdecode : decode old.code = .ok original)
    (hpushes : Pushes amount pool larger push)
    (hexpands : Expands (inFront (reading pool push)) original revised old new)
    (heffects : Assigning pool original effects)
    (hwithin : DepthsWithin limit original old.handlers effects) :
    DepthsWithin (limit + 1) revised new.handlers
      (carried insertedEffect (reading pool push) original effects) := by
  rw [hexpands.depthsWithin_iff (neutral_reading hpushes heffects) hdecode]
  intro index instruction depth _ hreaches
  have hdepth := hwithin index depth hreaches
  refine ⟨Nat.le_succ_of_le hdepth, fun _ ↦ Nat.add_le_add hdepth ?_⟩
  rw [adds]
  split <;> decide

/-- The room is enough unless an assignment is reached with all the slots there can be. -/
theorem depthsWithin_reading_iff {larger : ConstantPool} {revised : List Instruction}
    {old new : MethodBody} (hdecode : decode old.code = .ok original)
    (hpushes : Pushes amount pool larger push)
    (hexpands : Expands (inFront (reading pool push)) original revised old new)
    (hroom : new.maxStack = addStack old.maxStack 1) (heffects : Assigning pool original effects)
    (hwithin : DepthsWithin old.maxStack.toNat original old.handlers effects) :
    DepthsWithin new.maxStack.toNat revised new.handlers
        (carried insertedEffect (reading pool push) original effects) ↔
      ∀ index, AssignsAt pool original index →
        ¬ Reaches original old.handlers effects index 65535 := by
  have hlimit : new.maxStack.toNat = min (old.maxStack.toNat + 1) 65535 :=
    hroom ▸ toNat_addStack_one old.maxStack
  have hmost := old.maxStack.toNat_lt
  rw [hexpands.depthsWithin_iff (neutral_reading hpushes heffects) hdecode, hlimit]
  constructor
  · rintro hbound index ⟨instruction, field, hindex, hassigned⟩ hreaches
    have hneeds : takes pool index instruction ≤ 65535 := by
      rw [takes, hassigned]
      dsimp only
      split <;> decide
    have hover := (hbound index instruction _ hindex hreaches).2 hneeds
    rw [adds, hassigned] at hover
    change 65535 + 1 ≤ _ at hover
    omega
  · intro hnone index instruction depth hindex hreaches
    have hdepth := hwithin index depth hreaches
    refine ⟨by omega, fun _ ↦ ?_⟩
    rw [adds]
    cases hassigned : assigned? pool instruction with
    | none =>
      change depth + 0 ≤ _
      omega
    | some field =>
      have hless : depth ≠ 65535 := by
        rintro rfl
        exact hnone index ⟨instruction, field, hindex, hassigned⟩ hreaches
      change depth + 1 ≤ _
      omega

/-! ### What is asked for -/

theorem replaceAssignment_room {assignment : Assignment}
    (h : (replaceAssignment amount assignment).run.run editor = (.ok (), edited)) :
    edited = editor ∨ edited.extraStack = max editor.extraStack 1 := by
  obtain ⟨member, between, hresolved, hrest⟩ := edit_bind_eq_ok.mp h
  obtain ⟨-, rfl⟩ := BodyEdit.resolve_eq_ok hresolved
  by_cases hint : member.descriptor = "I"
  · rw [if_pos hint] at hrest
    obtain ⟨push, extended, hpush, hrecorded⟩ := edit_bind_eq_ok.mp hrest
    obtain ⟨larger, -, rfl⟩ := BodyEdit.extendPool_eq_ok hpush
    cases hrecorded
    right
    exact congrArg (max · 1) (Editor.extraStack_replay { between with pool := larger }
      [.replace assignment.index (addition assignment push)])
  · rw [if_neg hint] at hrest
    cases hrest
    exact .inl rfl

/-- However many assignments are replaced, one slot is asked for. -/
theorem forM_replaceAssignment_room {found : List Assignment} (hfew : editor.extraStack ≤ 1)
    (h : (found.forM (replaceAssignment amount)).run.run editor = (.ok (), edited)) :
    edited = editor ∨ edited.extraStack = 1 := by
  induction found generalizing editor with
  | nil =>
    cases h
    exact .inl rfl
  | cons first rest ih =>
    obtain ⟨_, between, hfirst, hrest⟩ := edit_bind_eq_ok.mp h
    rcases replaceAssignment_room hfirst with rfl | hroom
    · exact ih hfew hrest
    · have hone : between.extraStack = 1 := hroom.trans (if_pos hfew)
      rcases ih (hone ▸ UInt16.le_refl 1) hrest with rfl | hlater
      · exact .inr hone
      · exact .inr hlater

theorem extraStack_of_applied {cls after : EditableClass} {index : Nat} {method : Member}
    {body : MethodBody} {later : Editor}
    (h : Applied index (fun _ ↦ editBody amount) cls after method body editor later) :
    later.extraStack = 1 := by
  obtain ⟨-, hblank, hextra⟩ := Editor.ofBody_eq_ok h.opened
  obtain ⟨_, _, hstarted, hreplaced⟩ := edit_bind_eq_ok.mp h.recorded
  cases hstarted
  refine (forM_replaceAssignment_room (hextra ▸ by decide) hreplaced).resolve_left ?_
  rintro rfl
  have hunmodified : later.isModified = false := by
    rw [Editor.isModified, hblank]
    rfl
  cases hunmodified.symm.trans h.modified

end Increment

namespace Wrapper

variable {call : UInt16} {original revised : List Instruction} {old new : MethodBody}
  {effects : Nat → Effect}

/-! ### Returns -/

/-- How many slots an `areturn` takes. -/
def takes (_index : Nat) (old : Instruction) : Nat :=
  if old.opcode = .areturn then 1 else 0

/-- Every `areturn` takes a reference. -/
def Returning (instructions : List Instruction) (effects : Nat → Effect) : Prop :=
  ∀ index, ReturnsAt instructions index → effects index = ⟨1, 0⟩

theorem level_call : Level 1 0 [⟨1, 1⟩] :=
  ⟨rfl, by decide, ⟨0, by decide, rfl⟩, by decide⟩

theorem neutral_wrapping (heffects : Returning original effects) :
    Neutral insertedEffect (wrapping call) takes (fun _ _ ↦ 0) original effects where
  falls index old _ := by
    rw [wrapping]
    split
    · exact List.forall_mem_singleton.mpr ⟨rfl, rfl⟩
    · exact fun _ hmem ↦ absurd hmem List.not_mem_nil
  level index old _ := by
    rw [wrapping, takes]
    split
    · exact level_call
    · exact level_nil
  enough index old hold := by
    rw [takes]
    split
    · rename_i hopcode
      rw [heffects index ⟨old, hold, hopcode⟩]
    · exact Nat.zero_le _

/-- A call in front of an `areturn` needs no room. -/
theorem depthsWithin_wrapping (hdecode : decode old.code = .ok original)
    (hexpands : Expands (inFront (wrapping call)) original revised old new)
    (hroom : new.maxStack = old.maxStack) (heffects : Returning original effects)
    (hwithin : DepthsWithin old.maxStack.toNat original old.handlers effects) :
    DepthsWithin new.maxStack.toNat revised new.handlers
      (carried insertedEffect (wrapping call) original effects) := by
  rw [hexpands.depthsWithin_iff (neutral_wrapping heffects) hdecode, hroom]
  intro index instruction depth _ hreaches
  have hdepth := hwithin index depth hreaches
  exact ⟨hdepth, fun _ ↦ hdepth⟩

theorem extraStack_of_applied {wrapper : Wrapper} {cls after : EditableClass} {index : Nat}
    {method : Member} {body : MethodBody} {editor later : Editor} {type : String}
    (h : Applied index (fun _ ↦ wrapper.wrapReturns type) cls after method body editor later) :
    later.extraStack = 0 := by
  obtain ⟨-, -, hextra⟩ := Editor.ofBody_eq_ok h.opened
  obtain ⟨call, larger, -, rfl⟩ := wrapReturns_eq_ok h.recorded
  exact hextra

end Wrapper

/-! ### Classes -/

/-- The body of the method that a selector selects, before and after it was expanded. -/
structure BodyExpanded (selector : String) (expand : Nat → Instruction → List Instruction)
    (cls after : EditableClass) (original revised : List Instruction) (old new : MethodBody) :
    Prop where
  selected : ∃ index method, cls.findMethod selector = .ok index ∧
    cls.file.methods[index]? = some method ∧ method.body? = some old ∧
      after.file.methods[index]? = some (method.setBody new)
  decoded : decode old.code = .ok original
  expands : Expands expand original revised old new

section Weave

variable {Loader : Type} {cls after : EditableClass} {bytes : Bytes}

theorem Increment.expanded_of_weave {increment : Increment} (hindexed : cls.file.pool.Indexed)
    (hrun : (increment.transformer : Transformer Loader).weave.run.run cls =
      (.ok (some bytes), after)) :
    ∃ original revised old new push, bytes = after.file.bytes ∧
      BodyExpanded increment.method (inFront (reading cls.file.pool push)) cls after original
        revised old new ∧
      Pushes increment.amount cls.file.pool after.file.pool push ∧
      new.maxStack = addStack old.maxStack 1 := by
  obtain ⟨between, hedit, rfl, rfl⟩ := edited_of_editUnlessFrozen hrun
  obtain ⟨index, hselected, -, hedited⟩ := editSelected_eq_ok_iff.mp hedit
  obtain ⟨method, body, editor, later, happlied⟩ := hedited.applied
  obtain ⟨original, revised, push, hdecode, hpushes, hexpands⟩ :=
    expands_of_applied (show cls.defrost.file.pool.Indexed from hindexed) happlied
  refine ⟨original, revised, body, _, push, happlied.written, ⟨⟨index, method, hselected,
    happlied.selected, happlied.hasBody, happlied.revised⟩, hdecode,
    hexpands.congr fun _ _ hold ↦ content_reading hdecode hold⟩, hpushes, ?_⟩
  rw [maxStack_apply happlied.modified happlied.applied, extraStack_of_applied happlied]

theorem Wrapper.expanded_of_weave {wrapper : Wrapper} (hindexed : cls.file.pool.Indexed)
    (hrun : (wrapper.transformer : Transformer Loader).weave.run.run cls =
      (.ok (some bytes), after)) :
    ∃ original revised old new call type, bytes = after.file.bytes ∧
      BodyExpanded wrapper.method (inFront (wrapping call)) cls after original revised old new ∧
      after.file.pool.memberRef call =
        .ok ⟨wrapper.owner, wrapper.wrap, Descriptor.join [type] type⟩ ∧
      new.maxStack = old.maxStack := by
  obtain ⟨between, hedit, rfl, rfl⟩ := edited_of_editUnlessFrozen hrun
  obtain ⟨index, hselected, -, hedited⟩ := editSelected_eq_ok_iff.mp hedit
  obtain ⟨method, body, editor, later, happlied⟩ := hedited.applied
  obtain ⟨descriptor, type, -, -, hrecorded⟩ := editBody_eq_ok happlied.recorded
  have hchanged : Applied index (fun _ ↦ wrapper.wrapReturns type) cls.defrost between method body
      editor later := { happlied with recorded := hrecorded }
  obtain ⟨call, original, revised, hdecode, hmember, hexpands⟩ :=
    expands_of_applied (show cls.defrost.file.pool.Indexed from hindexed) hchanged
  refine ⟨original, revised, body, _, call, type, happlied.written, ⟨⟨index, method, hselected,
    happlied.selected, happlied.hasBody, happlied.revised⟩, hdecode, hexpands⟩, hmember, ?_⟩
  rw [maxStack_apply happlied.modified happlied.applied, extraStack_of_applied hchanged,
    addStack_zero]

end Weave

end ClassWeaver
