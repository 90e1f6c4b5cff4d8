import ClassWeaver.Descriptor
import ClassWeaver.Proofs.ClassFile.Interning
import ClassWeaver.Proofs.Code.Substitution

/-!
How deep the operand stack is at every instruction of a body.

Depths are counted in slots. They are consistent when the stack is empty at the entry, holds the
exception at a handler, and has the same depth at an instruction whichever way leads there; and no
instruction takes more than is there (`Consistent`). What `new`, `dup`, `nop`, `invokespecial` and
`invokestatic` do is fixed here, and that of all other instructions is left open.
-/

set_option autoImplicit false
set_option relaxedAutoImplicit false

namespace ClassWeaver.Code

open ClassFile

/-! ### What instructions do to the stack -/

/-- How many slots are taken off the stack, and how many are then put there. -/
structure Effect where
  pops : Nat
  pushes : Nat
  deriving DecidableEq, Repr

def Effect.after (effect : Effect) (depth : Nat) : Nat :=
  depth - effect.pops + effect.pushes

/-- The slots that a value of a type takes. -/
def valueSlots (type : String) : Nat :=
  if type = "V" then 0 else if type = "J" ∨ type = "D" then 2 else 1

def argumentSlots (parameters : List String) : Nat :=
  parameters.foldr (fun type slots ↦ valueSlots type + slots) 0

/-- What a call without a receiver does. -/
def callEffect? (descriptor : String) : Option Effect :=
  (Descriptor.split descriptor).map fun parts ↦
    ⟨argumentSlots parts.1, valueSlots parts.2⟩

section

variable (other : Opcode → Operand → Effect) (pool : ConstantPool)

/-- What a call of the method that an operand names does, but for the receiver. -/
def calledEffect? (operand : Operand) : Option Effect := do
  let index ← Instruction.poolIndex? ⟨.nop, operand, none⟩
  let member ← (pool.memberRef index).toOption
  callEffect? member.descriptor

/-- What an instruction does, unless it calls a method that cannot be resolved. -/
def effectOf? (opcode : Opcode) (operand : Operand) : Option Effect :=
  if opcode = .nop then some ⟨0, 0⟩
  else if opcode = .new then some ⟨0, 1⟩
  else if opcode = .dup then some ⟨1, 2⟩
  else if opcode = .invokestatic then calledEffect? pool operand
  else if opcode = .invokespecial then
    (calledEffect? pool operand).map fun effect ↦ { effect with pops := effect.pops + 1 }
  else some (other opcode operand)

/-- What an instruction does. Where it jumps to does not matter for that. -/
def Instruction.effect? (instruction : Instruction) : Option Effect :=
  effectOf? other pool instruction.writtenOpcode (instruction.operand.retarget fun _ ↦ 0)

end

/-- Whether the next instruction may follow. It does not after a `goto`, a `jsr`, a `ret`, a switch,
a return or an `athrow`. -/
def Opcode.fallsThrough (opcode : Opcode) : Bool :=
  !(0xa7 ≤ opcode && opcode ≤ 0xb1 || opcode == 0xbf || opcode == gotoW || opcode == jsrW)

/-- Which instruction may follow which. -/
inductive Leads (instructions : List Instruction) : Nat → Nat → Prop
  | falls {index : Nat} {instruction : Instruction}
      (hindex : instructions[index]? = some instruction)
      (hfalls : instruction.writtenOpcode.fallsThrough = true)
      (hnext : index + 1 < instructions.length) : Leads instructions index (index + 1)
  | jumps {index next target : Nat} {instruction : Instruction}
      (hindex : instructions[index]? = some instruction)
      (htarget : target ∈ instruction.operand.targets)
      (hnext : StartsAt instructions next target) : Leads instructions index next

/-- Without jumps, only the next instruction follows. -/
theorem Leads.eq_succ {instructions : List Instruction} {index next : Nat}
    (hplain : ∀ instruction ∈ instructions, instruction.operand.targets = [])
    (h : Leads instructions index next) : next = index + 1 ∧ next < instructions.length := by
  cases h with
  | falls hindex hfalls hnext => exact ⟨rfl, hnext⟩
  | jumps hindex htarget hnext =>
    rw [hplain _ (List.mem_of_getElem? hindex)] at htarget
    cases htarget

/-- Depths of the stack at the instructions of a body that fit together. -/
structure Consistent (effect? : Instruction → Option Effect) (instructions : List Instruction)
    (handlers : List ExceptionHandler) (depth : Nat → Nat) : Prop where
  entry : depth 0 = 0
  handlers : ∀ row ∈ handlers, ∀ index,
    StartsAt instructions index row.handler.toNat → depth index = 1
  enough : ∀ index instruction, instructions[index]? = some instruction →
    ∃ effect, effect? instruction = some effect ∧ effect.pops ≤ depth index
  leads : ∀ index next, Leads instructions index next → ∀ instruction effect,
    instructions[index]? = some instruction → effect? instruction = some effect →
      depth next = effect.after (depth index)

/-! ### Bodies without jumps -/

section

variable {effect? : Instruction → Option Effect} {instructions : List Instruction}
  {effects : List Effect} {index : Nat}

theorem getElem?_effects (heffects : instructions.map effect? = effects.map some)
    {instruction : Instruction} {effect : Effect}
    (hindex : instructions[index]? = some instruction)
    (heffect : effect? instruction = some effect) : effects[index]? = some effect := by
  have hmap := congrArg (·[index]?) heffects
  simpa [hindex, heffect] using hmap.symm

/-- Without jumps and handlers, the depths of neighbouring instructions are all that matters. -/
theorem consistent_of_straight {depth : Nat → Nat}
    (hplain : ∀ instruction ∈ instructions, instruction.operand.targets = [])
    (heffects : instructions.map effect? = effects.map some) (hentry : depth 0 = 0)
    (henough : ∀ (index : Nat) (h : index < effects.length), effects[index].pops ≤ depth index)
    (hnext : ∀ (index : Nat) (h : index < effects.length),
      index + 1 < effects.length → depth (index + 1) = effects[index].after (depth index)) :
    Consistent effect? instructions [] depth where
  entry := hentry
  handlers := nofun
  enough index instruction hindex := by
    have hmap := congrArg (·[index]?) heffects
    simp only [List.getElem?_map, hindex, Option.map_some] at hmap
    obtain ⟨effect, hfound, heffect⟩ := Option.map_eq_some_iff.mp hmap.symm
    obtain ⟨hlt, rfl⟩ := List.getElem?_eq_some_iff.mp hfound
    exact ⟨_, heffect.symm, henough index hlt⟩
  leads index next hleads instruction effect hindex heffect := by
    obtain ⟨hlt, rfl⟩ := List.getElem?_eq_some_iff.mp (getElem?_effects heffects hindex heffect)
    obtain ⟨rfl, hlength⟩ := hleads.eq_succ hplain
    have hsame : instructions.length = effects.length := by
      simpa using congrArg List.length heffects
    exact hnext index hlt (hsame ▸ hlength)

end

/-! ### Effects of single instructions -/

section

variable {other : Opcode → Operand → Effect} {pool : ConstantPool} {instruction : Instruction}

theorem effect?_plain_nop : (Instruction.plain .nop).effect? other pool = some ⟨0, 0⟩ := rfl

theorem effect?_of_new (h : instruction.opcode = .new) :
    instruction.effect? other pool = some ⟨0, 1⟩ := by
  rw [Instruction.effect?, Instruction.writtenOpcode_of_ne (by rw [h]; decide), h]
  rfl

theorem effect?_of_dup (h : instruction.opcode = .dup) :
    instruction.effect? other pool = some ⟨1, 2⟩ := by
  rw [Instruction.effect?, Instruction.writtenOpcode_of_ne (by rw [h]; decide), h]
  rfl

theorem poolIndex?_retarget (instruction : Instruction) (destination : Nat → Nat) :
    Instruction.poolIndex? ⟨.nop, instruction.operand.retarget destination, none⟩ =
      instruction.poolIndex? := by
  obtain ⟨opcode, operand, origin⟩ := instruction
  cases operand <;> rfl

/-- A call does what the descriptor of the called method says. -/
theorem calledEffect?_of_memberRef (instruction : Instruction) {index : UInt16}
    {member : MemberRef} (hindex : instruction.poolIndex? = some index)
    (hmember : pool.memberRef index = .ok member) (destination : Nat → Nat) :
    calledEffect? pool (instruction.operand.retarget destination) =
      callEffect? member.descriptor := by
  rw [calledEffect?, poolIndex?_retarget, hindex]
  change ((pool.memberRef index).toOption >>= fun member ↦ callEffect? member.descriptor) = _
  rw [hmember]
  rfl

theorem effect?_withConstant_invokestatic {index : UInt16} {member : MemberRef}
    (hmember : pool.memberRef index = .ok member) :
    (Instruction.withConstant .invokestatic index).effect? other pool =
      callEffect? member.descriptor :=
  calledEffect?_of_memberRef (.withConstant .invokestatic index) rfl hmember _

theorem effect?_of_invokespecial {index : UInt16} {member : MemberRef}
    (hopcode : instruction.opcode = .invokespecial) (hindex : instruction.poolIndex? = some index)
    (hmember : pool.memberRef index = .ok member) :
    instruction.effect? other pool = (callEffect? member.descriptor).map fun effect ↦
      { effect with pops := effect.pops + 1 } := by
  rw [← calledEffect?_of_memberRef instruction hindex hmember fun _ ↦ 0, Instruction.effect?,
    Instruction.writtenOpcode_of_ne (by rw [hopcode]; decide), hopcode]
  rfl

end

/-! ### The same instruction in another place -/

theorem Operand.retarget_retarget (first second : Nat → Nat) (operand : Operand) :
    (operand.retarget first).retarget second = operand.retarget (second ∘ first) := by
  cases operand with
  | lookupSwitch otherwise rows => simp [retarget, Function.comp_def]
  | _ => simp [retarget]

/-- An opcode that was written once is written again as it is. -/
theorem Instruction.writtenOpcode_idem (instruction : Instruction) (destination : Nat → Nat)
    (origin : Option Nat) :
    Instruction.writtenOpcode ⟨instruction.writtenOpcode,
      instruction.operand.retarget destination, origin⟩ = instruction.writtenOpcode := by
  obtain ⟨opcode, operand, place⟩ := instruction
  cases operand with
  | constant index =>
    by_cases hwide : opcode = .ldc ∧ narrowIndex < index
    · simp only [writtenOpcode, Operand.retarget, if_pos hwide]
      exact if_neg fun h ↦ absurd h.1 (by decide)
    · simp [writtenOpcode, Operand.retarget, if_neg hwide]
  | _ => rfl

namespace Revision

variable {revision : Revision} {before after : Instruction}

theorem Same.writtenOpcode (h : revision.Same before after) :
    after.writtenOpcode = before.writtenOpcode := by
  obtain ⟨opcode, operand, origin⟩ := after
  obtain ⟨rfl, destination, -, rfl⟩ := h
  exact before.writtenOpcode_idem destination origin

theorem Same.effect? (h : revision.Same before after) (other : Opcode → Operand → Effect)
    (pool : ConstantPool) : after.effect? other pool = before.effect? other pool := by
  obtain ⟨destination, -, hoperand⟩ := h.operand
  rw [Instruction.effect?, Instruction.effect?, h.writtenOpcode, hoperand,
    Operand.retarget_retarget]
  rfl

end Revision

/-! ### The same instruction in a larger pool -/

theorem calledEffect?_eq_some {pool : ConstantPool} {operand : Operand} {effect : Effect} :
    calledEffect? pool operand = some effect ↔
      ∃ index member, Instruction.poolIndex? ⟨.nop, operand, none⟩ = some index ∧
        pool.memberRef index = .ok member ∧ callEffect? member.descriptor = some effect := by
  rw [calledEffect?, Option.bind_eq_bind, Option.bind_eq_some_iff]
  refine exists_congr fun index ↦ ?_
  rw [Option.bind_eq_bind, Option.bind_eq_some_iff]
  cases hmember : pool.memberRef index with
  | error cause => simp [Except.toOption]
  | ok member => simp [Except.toOption]

theorem calledEffect?_of_extends {pool larger : ConstantPool} (h : larger.Extends pool)
    {operand : Operand} {effect : Effect} (heffect : calledEffect? pool operand = some effect) :
    calledEffect? larger operand = some effect := by
  obtain ⟨index, member, hindex, hmember, heffect⟩ := calledEffect?_eq_some.mp heffect
  exact calledEffect?_eq_some.mpr ⟨index, member, hindex,
    ConstantPool.lasting_memberRef index _ _ _ h hmember, heffect⟩

theorem Instruction.effect?_of_extends {other : Opcode → Operand → Effect}
    {pool larger : ConstantPool} (h : larger.Extends pool) {instruction : Instruction}
    {effect : Effect} (heffect : instruction.effect? other pool = some effect) :
    instruction.effect? other larger = some effect := by
  rw [Instruction.effect?, effectOf?] at heffect ⊢
  split_ifs at heffect ⊢
  · exact heffect
  · exact heffect
  · exact heffect
  · exact calledEffect?_of_extends h heffect
  · obtain ⟨called, hcalled, rfl⟩ := Option.map_eq_some_iff.mp heffect
    rw [calledEffect?_of_extends h hcalled]
    rfl
  · exact heffect

theorem Consistent.of_extends {other : Opcode → Operand → Effect} {pool larger : ConstantPool}
    {instructions : List Instruction} {handlers : List ExceptionHandler} {depth : Nat → Nat}
    (h : Consistent (Instruction.effect? other pool) instructions handlers depth)
    (hlarger : larger.Extends pool) :
    Consistent (Instruction.effect? other larger) instructions handlers depth where
  entry := h.entry
  handlers := h.handlers
  enough index instruction hindex := by
    obtain ⟨effect, heffect, hpops⟩ := h.enough index instruction hindex
    exact ⟨effect, Instruction.effect?_of_extends hlarger heffect, hpops⟩
  leads index next hleads instruction effect hindex heffect := by
    obtain ⟨known, hknown, -⟩ := h.enough index instruction hindex
    obtain rfl : known = effect :=
      Option.some.inj ((Instruction.effect?_of_extends hlarger hknown).symm.trans heffect)
    exact h.leads index next hleads instruction known hindex hknown

end ClassWeaver.Code
