import ClassWeaver.Proofs.ClassFile.Additions
import ClassWeaver.Proofs.Code.Expansion
import Mathlib.Logic.Function.Basic

/-!
What some instructions do when they run.

A machine has an operand stack and fields that hold values. Which field a reference in the constant
pool leads to is left open, as is what an object is. Instructions that push an `int`, that drop or
copy a value, add two of them, and read or write a field are run; no others are.
-/

set_option autoImplicit false
set_option relaxedAutoImplicit false

namespace ClassWeaver.Code

open ClassFile

/-! ### Machines -/

/-- A value on the operand stack. -/
inductive Value (Object : Type) where
  | int (number : Int32)
  | long (number : Int64)
  | float (bits : UInt32)
  | double (bits : UInt64)
  | returnAddress (offset : Nat)
  | null
  | object (reference : Object)

/-- Whether a value takes two places on the stack. -/
def Value.isWide {Object : Type} : Value Object → Bool
  | long _ | double _ => true
  | _ => false

structure Machine (Object Field : Type) where
  stack : List (Value Object)
  /-- What a field of an object holds, or a field of no object, which is static. -/
  fields : Option Object → Field → Value Object

def Machine.push {Object Field : Type} (machine : Machine Object Field) (value : Value Object) :
    Machine Object Field :=
  { machine with stack := value :: machine.stack }

/-- The fields, once `value` was put into one of them. -/
def assign {Object Field : Type} [DecidableEq Object] [DecidableEq Field]
    (fields : Option Object → Field → Value Object) (owner : Option Object) (field : Field)
    (value : Value Object) : Option Object → Field → Value Object :=
  Function.update fields owner (Function.update (fields owner) field value)

/-! ### Running instructions -/

section

variable {Object Field : Type} [DecidableEq Object] [DecidableEq Field] (pool : ConstantPool)
  (resolve : MemberRef → Field)

/-- The `int` that an instruction pushes, if that is what it does. -/
def pushedInt? (instruction : Instruction) : Option Int32 :=
  match instruction.operand with
  | .none =>
    if 2 ≤ instruction.opcode.toNat ∧ instruction.opcode.toNat ≤ 8 then
      some (Int32.ofInt (instruction.opcode.toNat - Opcode.iconst0.toNat))
    else none
  | .byte value => if instruction.opcode = .bipush then some value.toInt32 else none
  | .short value => if instruction.opcode = .sipush then some value.toInt32 else none
  | .constant index =>
    if instruction.opcode = .ldc ∨ instruction.opcode = .ldcW then
      match pool.entryAt index with
      | .ok (.integer value) => some value
      | _ => none
    else none
  | _ => none

/-- The field that an instruction is about. -/
def accessed? (instruction : Instruction) : Option Field := do
  let member ← (pool.memberRef (← instruction.poolIndex?)).toOption
  return resolve member

/-- Runs one instruction, unless it is of another kind or does not find what it needs. -/
def Instruction.run? (instruction : Instruction) (machine : Machine Object Field) :
    Option (Machine Object Field) :=
  match pushedInt? pool instruction with
  | some number => some (machine.push (.int number))
  | none =>
    if instruction.opcode = .pop then
      match machine.stack with
      | value :: rest => if value.isWide then none else some { machine with stack := rest }
      | [] => none
    else if instruction.opcode = .dup then
      match machine.stack with
      | value :: _ => if value.isWide then none else some (machine.push value)
      | [] => none
    else if instruction.opcode = .iadd then
      match machine.stack with
      | .int second :: .int first :: rest =>
        some { machine with stack := .int (first + second) :: rest }
      | _ => none
    else if instruction.opcode = .getstatic then
      (accessed? pool resolve instruction).map fun field ↦ machine.push (machine.fields none field)
    else if instruction.opcode = .putstatic then
      match machine.stack with
      | value :: rest =>
        (accessed? pool resolve instruction).map fun field ↦
          ⟨rest, assign machine.fields none field value⟩
      | [] => none
    else if instruction.opcode = .getfield then
      match machine.stack with
      | .object owner :: rest =>
        (accessed? pool resolve instruction).map fun field ↦
          { machine with stack := machine.fields (some owner) field :: rest }
      | _ => none
    else if instruction.opcode = .putfield then
      match machine.stack with
      | value :: .object owner :: rest =>
        (accessed? pool resolve instruction).map fun field ↦
          ⟨rest, assign machine.fields (some owner) field value⟩
      | _ => none
    else none

/-- Runs instructions one after the other. -/
def runAll? (block : List Instruction) (machine : Machine Object Field) :
    Option (Machine Object Field) :=
  block.foldlM (fun machine instruction ↦ instruction.run? pool resolve machine) machine

end

section Single

variable {Object Field : Type} [DecidableEq Object] [DecidableEq Field] {pool : ConstantPool}
  {resolve : MemberRef → Field} {instruction : Instruction} {machine : Machine Object Field}
  {fields : Option Object → Field → Value Object} {stack : List (Value Object)}
  {value : Value Object}

/-- All instructions that push an `int` have small opcodes. -/
theorem pushedInt?_of_lt (h : Opcode.ldcW < instruction.opcode) :
    pushedInt? pool instruction = none := by
  have hopcode : 19 < instruction.opcode.toNat := UInt8.lt_iff_toNat_lt.mp h
  have hne {opcode : Opcode} (hle : opcode.toNat ≤ 19) : instruction.opcode ≠ opcode := by
    rintro rfl
    omega
  rw [pushedInt?]
  split
  · exact if_neg fun hrange ↦ absurd hrange.2 (by omega)
  · exact if_neg (hne (by decide))
  · exact if_neg (hne (by decide))
  · exact if_neg (not_or.mpr ⟨hne (by decide), hne (by decide)⟩)
  · rfl

theorem run?_of_pushed {number : Int32} (h : pushedInt? pool instruction = some number) :
    instruction.run? pool resolve machine = some (machine.push (.int number)) := by
  rw [Instruction.run?, h]

theorem run?_pop (h : instruction.opcode = .pop) (hnarrow : value.isWide = false) :
    instruction.run? pool resolve ⟨value :: stack, fields⟩ = some ⟨stack, fields⟩ := by
  rw [Instruction.run?, pushedInt?_of_lt (by rw [h]; decide), h]
  exact if_neg (Bool.eq_false_iff.mp hnarrow)

theorem run?_dup (h : instruction.opcode = .dup) (hnarrow : value.isWide = false) :
    instruction.run? pool resolve ⟨value :: stack, fields⟩ =
      some ⟨value :: value :: stack, fields⟩ := by
  rw [Instruction.run?, pushedInt?_of_lt (by rw [h]; decide), h]
  exact if_neg (Bool.eq_false_iff.mp hnarrow)

theorem run?_iadd (h : instruction.opcode = .iadd) (first second : Int32) :
    instruction.run? pool resolve ⟨.int second :: .int first :: stack, fields⟩ =
      some ⟨.int (first + second) :: stack, fields⟩ := by
  rw [Instruction.run?, pushedInt?_of_lt (by rw [h]; decide), h]
  rfl

section Access

variable {index : UInt16} {member : MemberRef} (hindex : instruction.poolIndex? = some index)
  (hmember : pool.memberRef index = .ok member)

include hindex hmember

omit [DecidableEq Object] [DecidableEq Field] in
theorem accessed?_eq_some : accessed? pool resolve instruction = some (resolve member) := by
  rw [accessed?, hindex]
  change Option.bind (pool.memberRef index).toOption _ = _
  rw [hmember]
  rfl

theorem run?_getstatic (h : instruction.opcode = .getstatic) :
    instruction.run? pool resolve ⟨stack, fields⟩ =
      some ⟨fields none (resolve member) :: stack, fields⟩ := by
  rw [Instruction.run?, pushedInt?_of_lt (by rw [h]; decide), h]
  exact congrArg (Option.map _) (accessed?_eq_some hindex hmember)

theorem run?_putstatic (h : instruction.opcode = .putstatic) :
    instruction.run? pool resolve ⟨value :: stack, fields⟩ =
      some ⟨stack, assign fields none (resolve member) value⟩ := by
  rw [Instruction.run?, pushedInt?_of_lt (by rw [h]; decide), h]
  exact congrArg (Option.map _) (accessed?_eq_some hindex hmember)

theorem run?_getfield (h : instruction.opcode = .getfield) (owner : Object) :
    instruction.run? pool resolve ⟨.object owner :: stack, fields⟩ =
      some ⟨fields (some owner) (resolve member) :: stack, fields⟩ := by
  rw [Instruction.run?, pushedInt?_of_lt (by rw [h]; decide), h]
  exact congrArg (Option.map _) (accessed?_eq_some hindex hmember)

theorem run?_putfield (h : instruction.opcode = .putfield) (owner : Object) :
    instruction.run? pool resolve ⟨value :: .object owner :: stack, fields⟩ =
      some ⟨stack, assign fields (some owner) (resolve member) value⟩ := by
  rw [Instruction.run?, pushedInt?_of_lt (by rw [h]; decide), h]
  exact congrArg (Option.map _) (accessed?_eq_some hindex hmember)

end Access

theorem runAll?_cons {rest : List Instruction} {next : Machine Object Field}
    (h : instruction.run? pool resolve machine = some next) :
    runAll? pool resolve (instruction :: rest) machine = runAll? pool resolve rest next := by
  rw [runAll?, List.foldlM_cons, h]
  rfl

/-- Where instructions come from makes no difference. -/
theorem run?_congr {other : Instruction} (h : instruction.content = other.content) :
    instruction.run? pool resolve machine = other.run? pool resolve machine := by
  obtain ⟨opcode, operand, first⟩ := instruction
  obtain ⟨otherOpcode, otherOperand, second⟩ := other
  obtain ⟨rfl, rfl⟩ := Prod.mk.inj h
  rfl

theorem runAll?_congr {block other : List Instruction}
    (h : block.map Instruction.content = other.map Instruction.content) :
    runAll? pool resolve block machine = runAll? pool resolve other machine := by
  induction block generalizing other machine with
  | nil =>
    rw [List.map_eq_nil_iff.mp h.symm]
  | cons first rest ih =>
    obtain ⟨second, others, rfl, hfirst, hrest⟩ := List.map_eq_cons_iff.mp h.symm
    rw [runAll?, runAll?, List.foldlM_cons, List.foldlM_cons, run?_congr hfirst]
    exact Option.bind_congr fun next _ ↦ ih hrest.symm

end Single

/-! ### Pushing a number -/

section PushInt

variable {number : Int32} {pool larger : ConstantPool} {instruction : Instruction}

theorem pushInt_run (number : Int32) (pool : ConstantPool) :
    (Instruction.pushInt number).run.run pool =
      if -1 ≤ number.toInt ∧ number.toInt ≤ 5 then
        (.ok (.plain (UInt8.ofNat (Opcode.iconst0.toNat + number.toInt).toNat)), pool)
      else if fitsByte number.toInt then (.ok ⟨.bipush, .byte number.toInt8, none⟩, pool)
      else if fitsShort number.toInt then (.ok ⟨.sipush, .short number.toInt16, none⟩, pool)
      else match (ConstantPool.addInteger number).run.run pool with
        | (.ok index, larger) => (.ok (.withConstant .ldcW index), larger)
        | (.error cause, larger) => (.error cause, larger) := by
  unfold Instruction.pushInt
  dsimp only
  split
  · rfl
  split
  · rfl
  split
  · rfl
  rw [edit_bind_run]
  rcases (ConstantPool.addInteger number).run.run pool with ⟨outcome, larger⟩
  cases outcome with
  | ok index => rfl
  | error cause => rfl

theorem toInt32_toInt8 (h : fitsByte number.toInt = true) : number.toInt8.toInt32 = number := by
  simp only [fitsByte, Bool.and_eq_true, decide_eq_true_eq] at h
  apply Int32.toInt_inj.mp
  rw [Int8.toInt_toInt32, Int32.toInt_toInt8, Int.bmod_eq_of_le (by omega) (by omega)]

theorem toInt32_toInt16 (h : fitsShort number.toInt = true) :
    number.toInt16.toInt32 = number := by
  simp only [fitsShort, Bool.and_eq_true, decide_eq_true_eq] at h
  apply Int32.toInt_inj.mp
  rw [Int16.toInt_toInt32, Int32.toInt_toInt16, Int.bmod_eq_of_le (by omega) (by omega)]

/-- The instruction pushes the number, and is got again from the pool that it has led to, to which
at most the number was added. -/
structure Pushes (number : Int32) (pool larger : ConstantPool) (instruction : Instruction) :
    Prop where
  pushed : pushedInt? larger instruction = some number
  straight : instruction.Straight
  indexed : larger.Indexed
  extending : larger.Extends pool
  grown : larger = pool ∨ larger = pool.push (.integer number)
  again : (Instruction.pushInt number).run.run larger = (.ok instruction, larger)

theorem pushedInt?_iconst (hrange : -1 ≤ number.toInt ∧ number.toInt ≤ 5) :
    pushedInt? pool (.plain (UInt8.ofNat (Opcode.iconst0.toNat + number.toInt).toNat)) =
      some number := by
  have hopcode : (UInt8.ofNat (Opcode.iconst0.toNat + number.toInt).toNat).toNat =
      (3 + number.toInt).toNat := UInt8.toNat_ofNat_of_lt' (by
    change (3 + number.toInt).toNat < 256
    omega)
  change (if 2 ≤ (UInt8.ofNat _).toNat ∧ (UInt8.ofNat _).toNat ≤ 8 then
    some (Int32.ofInt ((UInt8.ofNat _).toNat - 3)) else none) = _
  rw [hopcode, if_pos (by omega)]
  have hsame : ((3 + number.toInt).toNat : Int) - 3 = number.toInt := by omega
  rw [hsame, Int32.ofInt_toInt]

theorem straight_iconst (hrange : -1 ≤ number.toInt ∧ number.toInt ≤ 5) :
    (Instruction.plain
      (UInt8.ofNat (Opcode.iconst0.toNat + number.toInt).toNat)).Straight := by
  have hall : ∀ opcode : Fin 9, Opcode.form? (UInt8.ofNat opcode) = some .plain ∧
      UInt8.ofNat opcode ≠ Opcode.ldc := by decide
  have hlt : (3 + number.toInt).toNat < 9 := by omega
  obtain ⟨hform, hopcode⟩ := hall ⟨_, hlt⟩
  exact ⟨⟨.plain, hform, .plain⟩, rfl, hopcode⟩

theorem pushes_of_pushInt (hindexed : pool.Indexed)
    (h : (Instruction.pushInt number).run.run pool = (.ok instruction, larger)) :
    Pushes number pool larger instruction := by
  have hrun := h
  rw [pushInt_run] at hrun
  split at hrun
  · rename_i hrange
    cases hrun
    exact ⟨pushedInt?_iconst hrange, straight_iconst hrange, hindexed, .refl _, .inl rfl, h⟩
  split at hrun
  · rename_i hbyte
    cases hrun
    have hpushed : pushedInt? pool ⟨.bipush, .byte number.toInt8, none⟩ = some number :=
      congrArg some (toInt32_toInt8 hbyte)
    exact ⟨hpushed, ⟨⟨.byte, rfl, .byte _⟩, rfl, show Opcode.bipush ≠ .ldc by decide⟩, hindexed,
      .refl _, .inl rfl, h⟩
  split at hrun
  · rename_i hshort
    cases hrun
    have hpushed : pushedInt? pool ⟨.sipush, .short number.toInt16, none⟩ = some number :=
      congrArg some (toInt32_toInt16 hshort)
    exact ⟨hpushed, ⟨⟨.short, rfl, .short _⟩, rfl, show Opcode.sipush ≠ .ldc by decide⟩, hindexed,
      .refl _, .inl rfl, h⟩
  rename_i hwide hbyte hshort
  rcases hadded : (ConstantPool.addInteger number).run.run pool with ⟨outcome, grown⟩
  rw [hadded] at hrun
  cases outcome with
  | error cause => cases hrun
  | ok index =>
    cases hrun
    obtain ⟨hlarger, hextending, hentry⟩ := ConstantPool.added_intern hindexed hadded
    have hpushed : pushedInt? larger (.withConstant .ldcW index) = some number := by
      change (match larger.entryAt index with | .ok (.integer value) => _ | _ => _) = _
      rw [hentry]
    have hgrown := ConstantPool.grown_of_intern hadded
    have hagain : (Instruction.pushInt number).run.run larger =
        (.ok (.withConstant .ldcW index), larger) := by
      rw [pushInt_run, if_neg hwide, if_neg hbyte, if_neg hshort,
        show (ConstantPool.addInteger number).run.run larger = _ from
          ConstantPool.intern_again hadded]
    exact ⟨hpushed, ⟨⟨.constant, rfl, .constant _⟩, rfl, show Opcode.ldcW ≠ .ldc by decide⟩,
      hlarger, hextending, hgrown, hagain⟩

/-- At most a number is brought into the pool. -/
theorem Pushes.brought (h : Pushes number pool larger instruction) (hframed : pool.Framed) :
    ConstantPool.Brought [] pool larger := by
  rcases h.grown with rfl | rfl
  · exact .refl hframed
  · refine ⟨hframed.push ?_, h.extending, fun text hmem ↦ .inl ?_⟩
    · have hsize := h.indexed.size_le
      rwa [ConstantPool.size_push] at hsize
    · rw [ConstantPool.Holds, ConstantPool.toList_push, List.mem_append] at hmem
      exact hmem.resolve_right fun hnumber ↦ by simp [Constant.slots, Constant.isWide] at hnumber

end PushInt

end ClassWeaver.Code
