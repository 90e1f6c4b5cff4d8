import ClassWeaver.Code.Decode
import ClassWeaver.Proofs.Attempt
import ClassWeaver.Proofs.Parsing

/-!
Well-formed instructions: an opcode together with an operand of the form that the opcode has.

A pool index behind `ldc` may have any size here, since it is widened when it is written. What is
read from a body is well formed, takes as many bytes as it says, and stands where the instruction
before it ends (`readFrom_eq_ok`).
-/

set_option autoImplicit false
set_option relaxedAutoImplicit false

namespace ClassWeaver.Code

/-! ### Operands of a form -/

/-- The operands that may follow an opcode of a form. A table switch has a target for every number
from the lowest to the highest, and at least one. -/
inductive Form.Admits : Form → Operand → Prop
  | plain : Admits .plain .none
  | byte (value : Int8) : Admits .byte (.byte value)
  | short (value : Int16) : Admits .short (.short value)
  | narrowConstant (index : UInt16) : Admits .narrowConstant (.constant index)
  | constant (index : UInt16) : Admits .constant (.constant index)
  | slot (index : UInt16) : Admits .slot (.slot index)
  | increment (index : UInt16) (amount : Int16) : Admits .increment (.increment index amount)
  | branch (target : Nat) : Admits .branch (.branch target)
  | wideBranch (target : Nat) : Admits .wideBranch (.branch target)
  | tableSwitch (otherwise : Nat) (low high : Int32) (targets : List Nat)
      (hle : low.toInt ≤ high.toInt)
      (hcount : (targets.length : Int) = high.toInt - low.toInt + 1) :
      Admits .tableSwitch (.tableSwitch otherwise low high targets)
  | lookupSwitch (otherwise : Nat) (rows : List (Int32 × Nat)) :
      Admits .lookupSwitch (.lookupSwitch otherwise rows)
  | interfaceCall (index : UInt16) (count : UInt8) :
      Admits .interfaceCall (.interfaceCall index count)
  | dynamicCall (index : UInt16) : Admits .dynamicCall (.dynamicCall index)
  | arrayType (type : UInt8) : Admits .arrayType (.arrayType type)
  | multiArray (index : UInt16) (dimensions : UInt8) :
      Admits .multiArray (.multiArray index dimensions)

/-- An instruction whose operand has the form of its opcode. -/
def Instruction.WellFormed (instruction : Instruction) : Prop :=
  ∃ form, instruction.opcode.form? = some form ∧ form.Admits instruction.operand

/-- The form tells apart the opcodes whose encoding depends on them. -/
theorem Opcode.form?_eq_some {opcode : Opcode} {form : Form} (h : opcode.form? = some form) :
    (opcode = .ldc ↔ form = .narrowConstant) ∧ (opcode = .iinc ↔ form = .increment) ∧
      (opcode = .gotoW ∨ opcode = .jsrW ↔ form = .wideBranch) := by
  have hall : ∀ n : Fin 256, ∀ form ∈ Opcode.form? (UInt8.ofNat n),
      (UInt8.ofNat n = Opcode.ldc ↔ form = .narrowConstant) ∧
        (UInt8.ofNat n = Opcode.iinc ↔ form = .increment) ∧
        (UInt8.ofNat n = Opcode.gotoW ∨ UInt8.ofNat n = Opcode.jsrW ↔ form = .wideBranch) := by
    decide +kernel
  have hopcode := hall ⟨opcode.toNat, opcode.toNat_lt⟩ form
  simp only [UInt8.ofNat_toNat] at hopcode
  exact hopcode h

/-! ### What is read -/

namespace Reading

open ClassWeaver.Parser

variable {offset : Nat}

theorem takes_i4 : Takes (i4 offset) 4 := by
  intro input value rest h
  obtain ⟨word, middle, hword, h⟩ := bind_eq_ok.mp h
  obtain ⟨-, rfl⟩ := pure_eq_ok.mp h
  exact takes_u4 _ _ _ _ hword

theorem takes_farTarget : Takes (farTarget offset) 4 := by
  intro input value rest h
  obtain ⟨distance, middle, hdistance, h⟩ := bind_eq_ok.mp h
  obtain ⟨-, rfl⟩ := lift_eq_ok.mp h
  exact takes_i4 _ _ _ hdistance

theorem takes_lookupRow : Takes (lookupRow offset) 8 := by
  intro input value rest h
  obtain ⟨key, middle, hkey, h⟩ := bind_eq_ok.mp h
  obtain ⟨target, last, htarget, h⟩ := bind_eq_ok.mp h
  obtain ⟨-, rfl⟩ := pure_eq_ok.mp h
  rw [takes_i4 _ _ _ hkey, takes_farTarget _ _ _ htarget]

theorem require_eq_ok {count : Nat} {input rest : Bytes}
    (h : require offset count input = .ok ((), rest)) : input = rest := by
  simp only [require] at h
  split at h
  · cases h
    rfl
  · cases h

/-- What was read is well formed, with one byte behind an `ldc`, and its width is the number of
bytes that it was read from: there were `before` bytes, its opcode included, and `after` bytes are
left. -/
structure Sound (reading : Reading) (before after : Nat) : Prop where
  wellFormed : ∃ form, reading.opcode.form? = some form ∧ form.Admits reading.operand
  narrow : reading.opcode = .ldc → ∃ index ≤ narrowIndex, reading.operand = .constant index
  before_eq : before = after + reading.width
  width_pos : 0 < reading.width

theorem Sound.of {opcode : Opcode} {form : Form} {operand : Operand} {width before after : Nat}
    (hform : opcode.form? = some form) (hadmits : form.Admits operand)
    (hwidth : before = after + width ∧ 0 < width)
    (hnarrow : form = .narrowConstant → ∃ index ≤ narrowIndex, operand = .constant index) :
    Sound ⟨opcode, operand, width⟩ before after :=
  ⟨⟨form, hform, hadmits⟩, fun hldc ↦ hnarrow ((Opcode.form?_eq_some hform).1.mp hldc), hwidth.1,
    hwidth.2⟩

theorem sound_widened {opcode : Opcode} {input rest : Bytes} {reading : Reading}
    (h : widened offset opcode input = .ok (reading, rest)) :
    reading.Sound (input.length + 2) rest.length := by
  unfold widened at h
  generalize hform : opcode.form? = form at h
  split at h
  · obtain ⟨index, middle, hindex, h⟩ := bind_eq_ok.mp h
    obtain ⟨amount, last, hamount, h⟩ := bind_eq_ok.mp h
    obtain ⟨rfl, rfl⟩ := pure_eq_ok.mp h
    have hfirst := takes_u2 _ _ _ _ hindex
    have hsecond := takes_u2 _ _ _ _ hamount
    exact .of hform (.increment _ _) (by omega) nofun
  · obtain ⟨index, middle, hindex, h⟩ := bind_eq_ok.mp h
    obtain ⟨rfl, rfl⟩ := pure_eq_ok.mp h
    have hfirst := takes_u2 _ _ _ _ hindex
    exact .of hform (.slot _) (by omega) nofun
  · exact absurd h throw_ne_ok

theorem sound_tableSwitch {opcode : Opcode} {input rest : Bytes} {reading : Reading}
    (hform : opcode.form? = some .tableSwitch)
    (h : behind offset opcode .tableSwitch input = .ok (reading, rest)) :
    reading.Sound (input.length + 1) rest.length := by
  obtain ⟨padding, afterPadding, hpadding, h⟩ := bind_eq_ok.mp h
  obtain ⟨otherwise, afterOtherwise, hotherwise, h⟩ := bind_eq_ok.mp h
  obtain ⟨low, afterLow, hlow, h⟩ := bind_eq_ok.mp h
  obtain ⟨high, afterHigh, hhigh, h⟩ := bind_eq_ok.mp h
  by_cases hempty : high.toInt < low.toInt
  · rw [if_pos hempty] at h
    exact absurd h throw_bind_ne_ok
  · rw [if_neg hempty] at h
    obtain ⟨_, afterRequire, hrequire, h⟩ := bind_eq_ok.mp h
    obtain ⟨targets, afterTargets, htargets, h⟩ := bind_eq_ok.mp h
    obtain ⟨rfl, rfl⟩ := pure_eq_ok.mp h
    have hrequired := require_eq_ok hrequire
    have hcount := length_of_times htargets
    have hpaddingTaken := congrArg List.length (take_eq_ok hpadding).1
    have hpaddingLength := (take_eq_ok hpadding).2
    have hotherwiseTaken := takes_farTarget _ _ _ hotherwise
    have hlowTaken := takes_i4 _ _ _ hlow
    have hhighTaken := takes_i4 _ _ _ hhigh
    have htargetsTaken := takes_times takes_farTarget _ _ _ _ htargets
    rw [List.length_append] at hpaddingTaken
    subst hrequired
    exact .of hform (.tableSwitch _ _ _ _ (by omega) (by rw [hcount]; omega)) (by omega) nofun

theorem sound_lookupSwitch {opcode : Opcode} {input rest : Bytes} {reading : Reading}
    (hform : opcode.form? = some .lookupSwitch)
    (h : behind offset opcode .lookupSwitch input = .ok (reading, rest)) :
    reading.Sound (input.length + 1) rest.length := by
  obtain ⟨padding, afterPadding, hpadding, h⟩ := bind_eq_ok.mp h
  obtain ⟨otherwise, afterOtherwise, hotherwise, h⟩ := bind_eq_ok.mp h
  obtain ⟨declared, afterDeclared, hdeclared, h⟩ := bind_eq_ok.mp h
  by_cases hnegative : declared.toInt < 0
  · rw [if_pos hnegative] at h
    exact absurd h throw_bind_ne_ok
  · rw [if_neg hnegative] at h
    obtain ⟨_, afterRequire, hrequire, h⟩ := bind_eq_ok.mp h
    obtain ⟨rows, afterRows, hrows, h⟩ := bind_eq_ok.mp h
    obtain ⟨rfl, rfl⟩ := pure_eq_ok.mp h
    have hrequired := require_eq_ok hrequire
    have hpaddingTaken := congrArg List.length (take_eq_ok hpadding).1
    have hpaddingLength := (take_eq_ok hpadding).2
    have hotherwiseTaken := takes_farTarget _ _ _ hotherwise
    have hdeclaredTaken := takes_i4 _ _ _ hdeclared
    have hrowsTaken := takes_times takes_lookupRow _ _ _ _ hrows
    rw [List.length_append] at hpaddingTaken
    subst hrequired
    exact .of hform (.lookupSwitch _ _) (by omega) nofun

theorem narrow_byte (byte : UInt8) : byte.toUInt16 ≤ narrowIndex := by
  have hlt := byte.toNat_lt
  rw [UInt16.le_iff_toNat_le, UInt8.toNat_toUInt16]
  exact Nat.le_of_lt_succ hlt

/-- The bytes behind an opcode are read as an operand of its form. -/
theorem sound_behind {opcode : Opcode} {form : Form} {input rest : Bytes} {reading : Reading}
    (hform : opcode.form? = some form)
    (h : behind offset opcode form input = .ok (reading, rest)) :
    reading.Sound (input.length + 1) rest.length := by
  cases form with
  | plain =>
    obtain ⟨rfl, rfl⟩ := pure_eq_ok.mp h
    exact .of hform .plain (by simp) nofun
  | byte =>
    obtain ⟨value, middle, hvalue, h⟩ := bind_eq_ok.mp h
    obtain ⟨rfl, rfl⟩ := pure_eq_ok.mp h
    have htaken := takes_u1 _ _ _ _ hvalue
    exact .of hform (.byte _) (by omega) nofun
  | short =>
    obtain ⟨value, middle, hvalue, h⟩ := bind_eq_ok.mp h
    obtain ⟨rfl, rfl⟩ := pure_eq_ok.mp h
    have htaken := takes_u2 _ _ _ _ hvalue
    exact .of hform (.short _) (by omega) nofun
  | narrowConstant =>
    obtain ⟨index, middle, hindex, h⟩ := bind_eq_ok.mp h
    obtain ⟨rfl, rfl⟩ := pure_eq_ok.mp h
    have htaken := takes_u1 _ _ _ _ hindex
    exact .of hform (.narrowConstant _) (by omega) fun _ ↦ ⟨_, narrow_byte index, rfl⟩
  | constant =>
    obtain ⟨index, middle, hindex, h⟩ := bind_eq_ok.mp h
    obtain ⟨rfl, rfl⟩ := pure_eq_ok.mp h
    have htaken := takes_u2 _ _ _ _ hindex
    exact .of hform (.constant _) (by omega) nofun
  | slot =>
    obtain ⟨index, middle, hindex, h⟩ := bind_eq_ok.mp h
    obtain ⟨rfl, rfl⟩ := pure_eq_ok.mp h
    have htaken := takes_u1 _ _ _ _ hindex
    exact .of hform (.slot _) (by omega) nofun
  | increment =>
    obtain ⟨index, middle, hindex, h⟩ := bind_eq_ok.mp h
    obtain ⟨amount, last, hamount, h⟩ := bind_eq_ok.mp h
    obtain ⟨rfl, rfl⟩ := pure_eq_ok.mp h
    have hfirst := takes_u1 _ _ _ _ hindex
    have hsecond := takes_u1 _ _ _ _ hamount
    exact .of hform (.increment _ _) (by omega) nofun
  | branch =>
    obtain ⟨distance, middle, hdistance, h⟩ := bind_eq_ok.mp h
    obtain ⟨target, last, htarget, h⟩ := bind_eq_ok.mp h
    obtain ⟨rfl, rfl⟩ := pure_eq_ok.mp h
    obtain ⟨-, rfl⟩ := lift_eq_ok.mp htarget
    have htaken := takes_u2 _ _ _ _ hdistance
    exact .of hform (.branch _) (by omega) nofun
  | wideBranch =>
    obtain ⟨target, middle, htarget, h⟩ := bind_eq_ok.mp h
    obtain ⟨rfl, rfl⟩ := pure_eq_ok.mp h
    have htaken := takes_farTarget _ _ _ htarget
    exact .of hform (.wideBranch _) (by omega) nofun
  | tableSwitch => exact sound_tableSwitch hform h
  | lookupSwitch => exact sound_lookupSwitch hform h
  | interfaceCall =>
    obtain ⟨index, afterIndex, hindex, h⟩ := bind_eq_ok.mp h
    obtain ⟨count, afterCount, hcount, h⟩ := bind_eq_ok.mp h
    obtain ⟨zero, last, hzero, h⟩ := bind_eq_ok.mp h
    obtain ⟨rfl, rfl⟩ := pure_eq_ok.mp h
    have hfirst := takes_u2 _ _ _ _ hindex
    have hsecond := takes_u1 _ _ _ _ hcount
    have hthird := takes_u1 _ _ _ _ hzero
    exact .of hform (.interfaceCall _ _) (by omega) nofun
  | dynamicCall =>
    obtain ⟨index, afterIndex, hindex, h⟩ := bind_eq_ok.mp h
    obtain ⟨zero, last, hzero, h⟩ := bind_eq_ok.mp h
    obtain ⟨rfl, rfl⟩ := pure_eq_ok.mp h
    have hfirst := takes_u2 _ _ _ _ hindex
    have hsecond := takes_u2 _ _ _ _ hzero
    exact .of hform (.dynamicCall _) (by omega) nofun
  | arrayType =>
    obtain ⟨type, middle, htype, h⟩ := bind_eq_ok.mp h
    obtain ⟨rfl, rfl⟩ := pure_eq_ok.mp h
    have htaken := takes_u1 _ _ _ _ htype
    exact .of hform (.arrayType _) (by omega) nofun
  | multiArray =>
    obtain ⟨index, afterIndex, hindex, h⟩ := bind_eq_ok.mp h
    obtain ⟨dimensions, last, hdimensions, h⟩ := bind_eq_ok.mp h
    obtain ⟨rfl, rfl⟩ := pure_eq_ok.mp h
    have hfirst := takes_u2 _ _ _ _ hindex
    have hsecond := takes_u1 _ _ _ _ hdimensions
    exact .of hform (.multiArray _ _) (by omega) nofun
  | wide =>
    obtain ⟨widenedOpcode, middle, hopcode, h⟩ := bind_eq_ok.mp h
    have htaken := takes_u1 _ _ _ _ hopcode
    have hsound := sound_widened h
    rwa [htaken]

/-- The next instruction is well formed, and its width counts the bytes that it was read from. -/
theorem sound_next {input rest : Bytes} {reading : Reading}
    (h : next offset input = .ok (reading, rest)) :
    reading.Sound input.length rest.length := by
  obtain ⟨opcode, middle, hopcode, h⟩ := bind_eq_ok.mp h
  have htaken := takes_u1 _ _ _ _ hopcode
  generalize hform : opcode.form? = form at h
  cases form with
  | none => exact absurd h throw_ne_ok
  | some form =>
    rw [htaken]
    exact sound_behind hform h

end Reading

/-! ### Bodies -/

/-- The instructions stand one behind the other from `offset` to `stop`, and each remembers where it
stands. -/
inductive Tiled : (offset : Nat) → List Instruction → (stop : Nat) → Prop
  | nil (offset : Nat) : Tiled offset [] offset
  | cons {offset width stop : Nat} {instruction : Instruction} {rest : List Instruction}
      (horigin : instruction.origin = some offset) (hwidth : 0 < width)
      (hrest : Tiled (offset + width) rest stop) : Tiled offset (instruction :: rest) stop

/-- The offsets at which the instructions stood in the body that they were read from. -/
def origins (instructions : List Instruction) : List Nat :=
  instructions.filterMap Instruction.origin

@[simp] theorem mem_origins {instructions : List Instruction} {offset : Nat} :
    offset ∈ origins instructions ↔
      ∃ instruction ∈ instructions, instruction.origin = some offset :=
  List.mem_filterMap

namespace Tiled

theorem le {offset stop : Nat} {instructions : List Instruction}
    (h : Tiled offset instructions stop) : offset ≤ stop := by
  induction h with
  | nil => exact Nat.le_refl _
  | cons _ _ _ ih => omega

theorem bounds {offset stop : Nat} {instructions : List Instruction}
    (h : Tiled offset instructions stop) :
    ∀ origin ∈ origins instructions, offset ≤ origin ∧ origin < stop := by
  induction h with
  | nil => simp
  | cons horigin hwidth hrest ih =>
    intro origin hmem
    have hle := hrest.le
    rw [origins, List.filterMap_cons_some horigin, List.mem_cons] at hmem
    rcases hmem with rfl | hmem
    · omega
    · have hbounds := ih origin hmem
      omega

/-- Instructions stand in the order of their offsets, no two at the same one. -/
theorem pairwise_origins {offset stop : Nat} {instructions : List Instruction}
    (h : Tiled offset instructions stop) : (origins instructions).Pairwise (· < ·) := by
  induction h with
  | nil => exact .nil
  | cons horigin hwidth hrest ih =>
    rw [origins, List.filterMap_cons_some horigin]
    refine .cons (fun origin hmem ↦ ?_) ih
    have hbounds := hrest.bounds origin hmem
    omega

theorem exists_origin {offset stop : Nat} {instructions : List Instruction}
    (h : Tiled offset instructions stop) :
    ∀ instruction ∈ instructions, ∃ origin, instruction.origin = some origin := by
  induction h with
  | nil => exact nofun
  | cons horigin _ _ ih => exact List.forall_mem_cons.mpr ⟨⟨_, horigin⟩, ih⟩

end Tiled

theorem readFrom_eq_ok {bound offset : Nat} {code : Bytes} {instructions : List Instruction}
    (hbound : code.length ≤ bound) (h : readFrom bound offset code = .ok instructions) :
    (∀ instruction ∈ instructions, instruction.WellFormed) ∧
      Tiled offset instructions (offset + code.length) := by
  induction bound generalizing offset code instructions with
  | zero =>
    obtain rfl : code = [] := List.eq_nil_of_length_eq_zero (by omega)
    cases h
    exact ⟨by simp, .nil offset⟩
  | succ bound ih =>
    cases code with
    | nil =>
      cases h
      exact ⟨by simp, .nil offset⟩
    | cons byte code =>
      simp only [readFrom] at h
      obtain ⟨⟨reading, rest⟩, hreading, h⟩ := except_bind_eq_ok.mp h
      obtain ⟨others, hothers, h⟩ := except_bind_eq_ok.mp h
      cases h
      obtain ⟨hwell, -, hbefore, hpos⟩ := Reading.sound_next hreading
      rw [List.length_cons] at hbefore hbound
      have hshorter : rest.length ≤ bound := by omega
      obtain ⟨hall, htiled⟩ := ih hshorter hothers
      refine ⟨List.forall_mem_cons.mpr ⟨hwell, hall⟩, .cons rfl hpos ?_⟩
      rwa [List.length_cons, hbefore, Nat.add_comm rest.length, ← Nat.add_assoc]

/-- Behind an `ldc` that was read, the index takes one byte. -/
theorem narrow_of_readFrom {bound offset : Nat} {code : Bytes} {instructions : List Instruction}
    (h : readFrom bound offset code = .ok instructions) :
    ∀ instruction ∈ instructions, instruction.opcode = .ldc →
      ∃ index ≤ narrowIndex, instruction.operand = .constant index := by
  induction bound generalizing offset code instructions with
  | zero =>
    cases code <;> cases h <;> exact nofun
  | succ bound ih =>
    cases code with
    | nil =>
      cases h
      exact nofun
    | cons byte code =>
      simp only [readFrom] at h
      obtain ⟨⟨reading, rest⟩, hreading, h⟩ := except_bind_eq_ok.mp h
      obtain ⟨others, hothers, h⟩ := except_bind_eq_ok.mp h
      cases h
      exact List.forall_mem_cons.mpr ⟨(Reading.sound_next hreading).narrow, ih hothers⟩

theorem checkTargets_eq_ok {starts : List Nat} {instruction : Instruction} :
    checkTargets (Std.TreeSet.ofList starts) instruction = .ok () ↔
      ∀ target ∈ instruction.operand.targets, target ∈ starts := by
  unfold checkTargets
  split
  · rename_i target hfound
    have hmem := List.mem_of_find?_eq_some hfound
    have hmissing := List.find?_some hfound
    simp only [Std.TreeSet.contains_ofList, Bool.not_eq_true', List.contains_eq_mem,
      decide_eq_false_iff_not] at hmissing
    constructor
    · intro h
      cases h
    · intro h
      exact absurd (h target hmem) hmissing
  · rename_i hfound
    simpa [Std.TreeSet.contains_ofList] using hfound

/-- What a body is read as: well-formed instructions that fill it, all of whose jumps land on one of
them. -/
theorem decode_eq_ok_iff {code : Bytes} {instructions : List Instruction} :
    decode code = .ok instructions ↔
      readFrom code.length 0 code = .ok instructions ∧
        ∀ instruction ∈ instructions, ∀ target ∈ instruction.operand.targets,
          target ∈ origins instructions := by
  unfold decode
  constructor
  · intro h
    obtain ⟨read, hread, h⟩ := except_bind_eq_ok.mp h
    obtain ⟨_, hcheck, h⟩ := except_bind_eq_ok.mp h
    cases h
    refine ⟨hread, fun instruction hmem ↦ ?_⟩
    exact checkTargets_eq_ok.mp (forM_eq_ok.mp hcheck instruction hmem)
  · rintro ⟨hread, htargets⟩
    refine except_bind_eq_ok.mpr ⟨_, hread, except_bind_eq_ok.mpr ⟨(), ?_, rfl⟩⟩
    refine forM_eq_ok.mpr fun instruction hmem ↦ ?_
    exact checkTargets_eq_ok.mpr (htargets instruction hmem)

end ClassWeaver.Code
